import LittleMan.Fault
import LittleMan.Text.Slice

/-! Columns of a line counted in characters and in UTF-16 code units. Beyond the end of the line both
go on one to one. -/

namespace LittleMan

def unitWidth (c : CodePoint) : Nat := if 0xffff < c.toNat then 2 else 1

def unitLength : List CodePoint → Nat
  | [] => 0
  | c :: rest => unitWidth c + unitLength rest

/-- The code unit column of a character column. A negative column counts from the end of the line. -/
def unitColumn (line : List CodePoint) (col : Int) : Int :=
  unitLength (slice line 0 col) + max (col - line.length) 0

/-- The code unit column as it is written, by encoding the characters before it. A surrogate on its own has
no encoding. -/
def toUnits (line : List CodePoint) (col : Int) : Except Fault Int :=
  if (slice line 0 col).any CodePoint.isSurrogate then .error .loneSurrogate
  else .ok (unitColumn line col)

/-- The least character column whose code unit column reaches `units`. -/
def ofUnits : List CodePoint → Int → Int
  | [], units => max units 0
  | c :: rest, units => if units ≤ 0 then 0 else 1 + ofUnits rest (units - unitWidth c)

theorem unitLength_append (s t : List CodePoint) : unitLength (s ++ t) = unitLength s + unitLength t := by
  induction s with
  | nil => simp [unitLength]
  | cons c rest ih => simp [unitLength, ih, Nat.add_assoc]

theorem unitWidth_pos (c : CodePoint) : 0 < unitWidth c := by
  unfold unitWidth; split <;> omega

theorem ofUnits_nonneg (line : List CodePoint) (units : Int) : 0 ≤ ofUnits line units := by
  fun_induction ofUnits line units with
  | case1 units => omega
  | case2 => omega
  | case3 c rest units h ih => omega

end LittleMan
