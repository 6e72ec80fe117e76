import LittleMan.Catalog.Mnemonic
import LittleMan.Operand
import LittleMan.Source

/-! The line grammar. What follows the first semicolon is comment. Before it stand an optional label in
the first column, three capital letters, and an optional operand, with blanks between them; text
after the operand is ignored. -/

namespace LittleMan

structure Word where
  col : Nat
  text : List CodePoint
  deriving DecidableEq, Repr

def Word.span (w : Word) (line : Int) : Span := ⟨line, w.col, w.text.length⟩

/-- What a line says. The mnemonic need not be one of the catalog. -/
structure Statement where
  label : Option Word
  mnemonic : Word
  operand : Option Word
  deriving DecidableEq, Repr

def codePart (line : List CodePoint) : List CodePoint := line.takeWhile (· != .scalar ';')

namespace Statement

/-- The operand in what follows a mnemonic: the first word, if blanks stand before it. -/
def operand? (col : Nat) (rest : List CodePoint) : Option Word :=
  let gap := rest.takeWhile isSpace
  let word := (rest.dropWhile isSpace).takeWhile (!isSpace ·)
  if gap.isEmpty || word.isEmpty then none else some ⟨col + gap.length, word⟩

/-- An instruction that starts in column `col`, after any blanks. -/
def instruction? (col : Nat) (code : List CodePoint) : Option (Word × Option Word) :=
  let col := col + (code.takeWhile isSpace).length
  match code.dropWhile isSpace with
  | a :: b :: c :: rest =>
    if a.isUpper && b.isUpper && c.isUpper && !rest.head?.any isWord then
      some (⟨col, [a, b, c]⟩, operand? (col + 3) rest)
    else none
  | _ => none

/-- A label at the head of a line, and what follows it: a name that is no mnemonic, with a blank after
it. -/
def label? (code : List CodePoint) : Option (Word × List CodePoint) :=
  let name := code.takeWhile isWord
  let rest := code.dropWhile isWord
  if isIdentifier name && rest.head?.any isSpace && (Mnemonic.ofText? name).isNone then
    some (⟨0, name⟩, rest)
  else none

def labelled? (code : List CodePoint) : Option Statement :=
  match label? code with
  | some (label, rest) =>
    (instruction? label.text.length rest).map fun (m, o) => ⟨some label, m, o⟩
  | none => none

/-- What a line says, if it says anything. A word that could be a label is an instruction where the
text after it is none. -/
def read? (line : List CodePoint) : Option Statement :=
  let code := codePart line
  match labelled? code with
  | some s => some s
  | none => (instruction? 0 code).map fun (m, o) => ⟨none, m, o⟩

def isMnemonic (s : Statement) (m : Mnemonic) : Bool := s.mnemonic.text == m.text

end Statement

structure Record extends Statement where
  line : Nat
  deriving DecidableEq, Repr

def readRecords : Nat → List (List CodePoint) → List Record
  | _, [] => []
  | n, line :: lines =>
    match Statement.read? line with
    | some s => { s with line := n } :: readRecords (n + 1) lines
    | none => readRecords (n + 1) lines

def Source.records (s : Source) : List Record := readRecords 0 s.lines

end LittleMan
