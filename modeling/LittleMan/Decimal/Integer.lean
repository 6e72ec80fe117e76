import LittleMan.Text.Basic

/-! Whole numbers in decimal digits. -/

namespace LittleMan

namespace Decimal

/-- A whole number of more digits than this is neither read, whatever its value, nor shown. -/
def digitLimit : Nat := 4300

def value (digits : List CodePoint) : Nat :=
  digits.foldl (fun n c => 10 * n + (c.toNat - '0'.toNat)) 0

/-- The digits of a whole number with its sign, unless there are too many. -/
def text? (n : Int) : Option Text :=
  if (Nat.toDigits 10 n.natAbs).length ≤ digitLimit then some (toString n) else none

end Decimal

end LittleMan
