import LittleMan.Decimal.Integer
import LittleMan.Fault
import LittleMan.Text.Lines
import LittleMan.Text.Slice

/-! Source texts, and spans on one line of them. Lines and columns are counted from zero and shown
counted from one. -/

namespace LittleMan

structure Source where
  name : Text
  text : List CodePoint
  lines : List (List CodePoint) := linesOf text
  lines_eq : lines = linesOf text := by rfl
  deriving DecidableEq, Repr

def anonymous : Text := "<anonymous>"

/-- A text under the name it was given, if any; an empty name is none. -/
def Source.named (name : Option Text) (text : List CodePoint) : Source :=
  { name := (name.filter fun n : Text => n ≠ "").getD anonymous, text }

def Source.withText (s : Source) (text : List CodePoint) : Source := { name := s.name, text }

theorem Source.lines_ne_nil (s : Source) : s.lines ≠ [] := s.lines_eq ▸ linesOf_ne_nil s.text

def Source.isBlank (s : Source) : Bool := s.text.all LittleMan.isBlank

/-- A place in a text. Places are ordered by line, then by column. -/
structure Position where
  line : Int
  col : Int
  deriving DecidableEq, Repr

protected def Position.le (p q : Position) : Prop :=
  p.line < q.line ∨ (p.line = q.line ∧ p.col ≤ q.col)

instance : LE Position := ⟨Position.le⟩

instance (p q : Position) : Decidable (p ≤ q) :=
  inferInstanceAs (Decidable (p.line < q.line ∨ (p.line = q.line ∧ p.col ≤ q.col)))

/-- `len` characters of a line, from a column on. -/
structure Span where
  line : Int
  col : Int
  len : Int := 1
  deriving DecidableEq, Repr

namespace Span

def stopCol (s : Span) : Int := s.col + s.len

def start (s : Span) : Position := ⟨s.line, s.col⟩

def stop (s : Span) : Position := ⟨s.line, s.stopCol⟩

def resize (s : Span) (len : Int) : Span := { s with len }

def atEnd (s : Span) : Span := ⟨s.line, s.stopCol, 0⟩

def touches (s : Span) (a b : Position) : Bool := s.start ≤ b && a ≤ s.stop

end Span

namespace Source

def atEnd (s : Source) : Span :=
  ⟨s.lines.length - 1, (s.lines.getLast s.lines_ne_nil).length, 0⟩

/-- The number of characters before a position. A column beyond the line stands for its end. -/
def offset? (s : Source) (p : Position) : Option Nat :=
  if p.line < 0 then none
  else do
    let start ← lineStart? p.line.toNat s.text
    let line ← s.lines[p.line.toNat]?
    return start + min p.col.toNat line.length

def place (s : Source) (span : Span) : Except Fault Text :=
  match Decimal.text? (span.line + 1), Decimal.text? (span.col + 1) with
  | some line, some col => .ok (s.name ++ ":" ++ line ++ ":" ++ col)
  | _, _ => .error .tooManyDigits

def textAt (s : Source) (span : Span) : Except Fault (List CodePoint) :=
  match nth? s.lines span.line with
  | some line => .ok (slice line span.col span.stopCol)
  | none => .error .outOfRange

def marginNumber (n : Int) : List CodePoint :=
  let digits := Text.toList (toString n)
  List.replicate (4 - digits.length) (.scalar ' ') ++ digits

/-- The length of a repeated character; a negative one counts as zero. -/
def repeatLength (n : Int) : Except Fault Nat :=
  if n < -Int.pow 2 63 ∨ Int.pow 2 63 ≤ n then .error .sizeOverflow
  else if Int.pow 2 40 ≤ n then .error .noMemory
  else .ok n.toNat

/-- A line below its number, and below it a caret under the first character of the span and tildes
under the others. -/
def viewLines (line : List CodePoint) (span : Span) : Except Fault (List (List CodePoint)) := do
  let before ← repeatLength span.col
  let after ← repeatLength (span.len - 1)
  return [marginNumber (span.line + 1) ++ Text.toList " | " ++ line,
    Text.toList "     | " ++ List.replicate before (.scalar ' ') ++
      CodePoint.scalar '^' :: List.replicate after (.scalar '~')]

def view (s : Source) (span : Span) : Except Fault Text :=
  match nth? s.lines span.line with
  | some line =>
    (viewLines line span).map fun lines => Text.ofList (lines.flatMap (· ++ [.scalar '\n']))
  | none => .error .outOfRange

end Source

end LittleMan
