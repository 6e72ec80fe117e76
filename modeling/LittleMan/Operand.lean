import LittleMan.Numeral
import LittleMan.Text.Blank

/-! How an operand is addressed, told from its first character and its digits. -/

namespace LittleMan

inductive Addressing where
  /-- A bare decimal numeral. -/
  | numeric
  /-- A value after `#`. -/
  | immediate
  /-- A label after `@`. -/
  | indirect
  /-- A label. -/
  | direct
  deriving DecidableEq, Repr

def addressing (operand : List CodePoint) : Addressing :=
  if Numeral.isDecimal operand then .numeric
  else match operand.head? with
    | some (.scalar '#') => .immediate
    | some (.scalar '@') => .indirect
    | _ => .direct

def isIdentifier : List CodePoint → Bool
  | c :: rest => c.isAlpha && rest.all isWord
  | [] => false

end LittleMan
