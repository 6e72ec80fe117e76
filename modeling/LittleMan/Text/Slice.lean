/-! Items and slices of a list by integer positions, and the parts of a list between separators. A negative
position counts from the end; a slice never fails, its ends are moved into the list. -/

namespace LittleMan

def nth? {α : Type} (xs : List α) (i : Int) : Option α :=
  if 0 ≤ i then xs[i.toNat]?
  else if 0 ≤ i + xs.length then xs[(i + xs.length).toNat]?
  else none

/-- The end of a slice as an offset into a list of `n` items. -/
def clampEnd (n : Nat) (i : Int) : Nat :=
  if i < 0 then (i + n).toNat else min i.toNat n

/-- The items from position `a` up to, but without, position `b`. -/
def slice {α : Type} (xs : List α) (a b : Int) : List α :=
  (xs.take (clampEnd xs.length b)).drop (clampEnd xs.length a)

/-- The parts of a list between the places where an item stands. -/
def cutAt {α : Type} [DecidableEq α] (item : α) : List α → List (List α)
  | [] => [[]]
  | a :: rest =>
    if a = item then [] :: cutAt item rest
    else match cutAt item rest with
      | [] => [[a]]
      | part :: parts => (a :: part) :: parts

theorem nth?_natCast {α : Type} (xs : List α) (n : Nat) : nth? xs n = xs[n]? := by
  simp [nth?]

theorem slice_natCast {α : Type} (xs : List α) (a b : Nat) :
    slice xs a b = (xs.take b).drop a := by
  have h : ∀ n : Nat, ¬ ((n : Int) < 0) := by omega
  simp only [slice, clampEnd, h, if_false, Int.toNat_natCast]
  rw [← List.take_eq_take_min, List.drop_eq_drop_iff]
  simp only [List.length_take]
  omega

end LittleMan
