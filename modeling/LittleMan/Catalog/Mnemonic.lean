import LittleMan.Text.Basic

/-! The eleven mnemonics of the machine. -/

namespace LittleMan

inductive Mnemonic where
  | inp | out | add | sub | sta | lda | bra | brz | brp | dat | hlt
  deriving DecidableEq, Repr

namespace Mnemonic

/-- The mnemonics in the order in which they are listed and proposed. -/
def all : List Mnemonic := [inp, out, add, sub, sta, lda, bra, brz, brp, dat, hlt]

def text : Mnemonic → List CodePoint
  | inp => ['I', 'N', 'P']
  | out => ['O', 'U', 'T']
  | add => ['A', 'D', 'D']
  | sub => ['S', 'U', 'B']
  | sta => ['S', 'T', 'A']
  | lda => ['L', 'D', 'A']
  | bra => ['B', 'R', 'A']
  | brz => ['B', 'R', 'Z']
  | brp => ['B', 'R', 'P']
  | dat => ['D', 'A', 'T']
  | hlt => ['H', 'L', 'T']

def name (m : Mnemonic) : Text := Text.ofList m.text

def ofText? (t : List CodePoint) : Option Mnemonic := all.find? fun m => m.text = t

/-- Mnemonics whose operand, if there is one, is ignored. -/
def ignoresOperand : Mnemonic → Bool
  | inp | out | hlt => true
  | _ => false

/-- Mnemonics whose operand names a place in the code. -/
def isBranch : Mnemonic → Bool
  | bra | brz | brp => true
  | _ => false

def operandHint : Mnemonic → Text
  | inp | out | hlt => ""
  | add | sub | sta | lda => "operand"
  | bra | brz | brp => "label"
  | dat => "[value]"

def summary : Mnemonic → Text
  | inp => "Read a value from the input into the accumulator"
  | out => "Write the accumulator to the output"
  | add => "Add a value to the accumulator"
  | sub => "Subtract a value from the accumulator"
  | sta => "Store the accumulator to a mailbox"
  | lda => "Load a value into the accumulator"
  | bra => "Branch always"
  | brz => "Branch if the accumulator is zero"
  | brp => "Branch if the accumulator is zero or positive"
  | dat => "Reserve a mailbox holding a number, a label or an immediate value"
  | hlt => "Stop the program"

def usage (m : Mnemonic) : Text :=
  if m.operandHint = "" then m.name else m.name ++ " " ++ m.operandHint

theorem text_injective {a b : Mnemonic} (h : a.text = b.text) : a = b := by
  cases a <;> cases b <;> simp_all [text]

theorem ofText?_text (m : Mnemonic) : ofText? m.text = some m := by cases m <;> decide

theorem ofText?_eq_some_iff {t : List CodePoint} {m : Mnemonic} : ofText? t = some m ↔ m.text = t := by
  constructor
  · intro h
    simpa using List.find?_some h
  · rintro rfl
    exact ofText?_text m

end Mnemonic

end LittleMan
