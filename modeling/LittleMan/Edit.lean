import LittleMan.Source

/-! Changes to a text. -/

namespace LittleMan

structure Edit where
  start : Position
  stop : Position
  text : List CodePoint
  /-- The lines are shown to a client as truth values. -/
  lineAsTruth : Bool := false
  deriving DecidableEq, Repr

namespace Edit

def isInsertion (e : Edit) : Bool := e.start = e.stop

def replace (span : Span) (text : List CodePoint) : Edit :=
  { start := span.start, stop := span.stop, text }

def insert (p : Position) (text : List CodePoint) : Edit := { start := p, stop := p, text }

/-- The text after an edit, if both positions are on lines of the text. -/
def textAfter (e : Edit) (s : Source) : Option (List CodePoint) := do
  let start ← s.offset? e.start
  let stop ← s.offset? e.stop
  return s.text.take start ++ e.text ++ s.text.drop stop

end Edit

end LittleMan
