import LittleMan.Json.Basic
import LittleMan.Source
import LittleMan.Text.Units

/-! Positions as the language server protocol writes them, with columns in UTF-16 code units. A client
may send numbers with a fraction; they are compared like others but select no line and no text. It may
also send the lines 0 and 1 as truth values, and gets them back so. -/

namespace LittleMan

/-- The text that the columns of a line refer to; a line outside the text is empty. -/
def Source.columnText (s : Source) (line : Int) : List CodePoint :=
  if 0 ≤ line then (s.lines[line.toNat]?).getD [] else []

def Source.hasLine (s : Source) (line : Int) : Bool := 0 ≤ line && line < s.lines.length

/-- The number of a line, or the truth value that stands for it. -/
def lineJson (line : Int) (asTruth : Bool) : Json := if asTruth then .bool (line == 1) else .int line

def positionObject (line : Int) (asTruth : Bool) (units : Int) : Json :=
  .obj [("line", lineJson line asTruth), ("character", .int units)]

def rangeObject (start stop : Json) : Json := .obj [("start", start), ("end", stop)]

def Position.toJson (s : Source) (p : Position) (asTruth : Bool) : Except Fault Json :=
  (toUnits (s.columnText p.line) p.col).map (positionObject p.line asTruth)

def rangeJson (s : Source) (start stop : Position) (asTruth : Bool) : Except Fault Json := do
  let first ← start.toJson s asTruth
  let last ← stop.toJson s asTruth
  return rangeObject first last

def Span.toJson (s : Source) (span : Span) (asTruth : Bool) : Except Fault Json :=
  rangeJson s span.start span.stop asTruth

/-- The character column of a code unit column with a fraction, after `col` characters. It is whole
where the units are negative or end inside a character. -/
def ofRealUnits (col : Nat) (line : List CodePoint) (units : Double) : Number :=
  let stop : Number := if units.isNegative then .whole col else .real (units.add col)
  match line with
  | [] => stop
  | c :: rest =>
    if units.isNegative || units.isZero then stop
    else ofRealUnits (col + 1) rest (units.add (-(unitWidth c : Int)))

def columnOf (line : List CodePoint) : Number → Number
  | .whole n => .whole (ofUnits line n)
  | .real x => ofRealUnits 0 line x

/-- A position from a client, its column counted in characters. -/
structure Point where
  line : Number
  col : Number
  /-- The line came as a truth value. -/
  lineAsTruth : Bool := false
  deriving DecidableEq, Repr

namespace Point

/-- The text that a column refers to. A line with a fraction that would lie in the text is refused. -/
def textOfLine (s : Source) (line : Number) : Except Fault (List CodePoint) :=
  match line with
  | .whole n => .ok (s.columnText n)
  | .real _ =>
    if (Number.whole 0).le line && line.lt (.whole s.lines.length) then .error .wrongShape else .ok []

def ofJson (s : Source) (v : Json) : Except Fault Point := do
  let given ← v.field "line"
  let line ← given.number
  let text ← textOfLine s line
  let units ← (← v.field "character").number
  return { line, col := columnOf text units, lineAsTruth := given.isBool }

def ofPosition (p : Position) : Point := { line := .whole p.line, col := .whole p.col }

def le (p q : Point) : Bool := p.line.lt q.line || (p.line.same q.line && p.col.le q.col)

def rangeOfJson (s : Source) (v : Json) : Except Fault (Point × Point) := do
  let start ← ofJson s (← v.field "start")
  let stop ← ofJson s (← v.field "end")
  return (start, stop)

end Point

def Span.touchesRange (span : Span) (range : Point × Point) : Bool :=
  (Point.ofPosition span.start).le range.2 && range.1.le (Point.ofPosition span.stop)

end LittleMan
