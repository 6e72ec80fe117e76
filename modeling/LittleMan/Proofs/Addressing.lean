import LittleMan.Operand
import LittleMan.Text.Digit

/-! The four ways of addressing, told from the text of an operand. A label is always addressed
directly. -/

namespace LittleMan

theorem addressing_eq_numeric_iff {t : List CodePoint} :
    addressing t = .numeric ↔ Numeral.isDecimal t = true := by
  rw [addressing]
  split
  · next h => simp [h]
  · next h => split <;> simp [h]

theorem addressing_eq_head_iff {t : List CodePoint} :
    (addressing t = .immediate ↔ ∃ v, t = .scalar '#' :: v) ∧
      (addressing t = .indirect ↔ ∃ v, t = .scalar '@' :: v) := by
  cases t with
  | nil => simp [addressing, Numeral.isDecimal]
  | cons c t =>
    by_cases hd : Numeral.isDecimal (c :: t) = true
    · have hc : c.isDigit = true := by
        simp only [Numeral.isDecimal, List.all_cons, Bool.and_eq_true] at hd
        exact hd.2.1
      have hne : c ≠ '#' ∧ c ≠ '@' := by
        constructor <;> rintro rfl <;> exact absurd hc (by decide)
      simp [addressing, hd, hne]
    · simp only [addressing, hd, Bool.false_eq_true, if_false, List.head?_cons]
      split <;> simp_all

theorem addressing_eq_immediate_iff {t : List CodePoint} :
    addressing t = .immediate ↔ ∃ v, t = .scalar '#' :: v := addressing_eq_head_iff.1

theorem addressing_eq_indirect_iff {t : List CodePoint} :
    addressing t = .indirect ↔ ∃ v, t = .scalar '@' :: v := addressing_eq_head_iff.2

theorem addressing_of_isIdentifier {t : List CodePoint} (h : isIdentifier t = true) :
    addressing t = .direct := by
  cases t with
  | nil => cases h
  | cons c t =>
    simp only [isIdentifier, Bool.and_eq_true] at h
    cases ha : addressing (c :: t) with
    | direct => rfl
    | numeric =>
      rw [addressing_eq_numeric_iff] at ha
      simp only [Numeral.isDecimal, List.all_cons, Bool.and_eq_true] at ha
      have hdigit := (CodePoint.isDigit_iff c).1 ha.2.1
      have halpha : (c.isUpper || c.isLower) = true := h.1
      simp only [Bool.or_eq_true, CodePoint.isUpper_iff, CodePoint.isLower_iff] at halpha
      omega
    | immediate =>
      obtain ⟨v, hv⟩ := addressing_eq_immediate_iff.1 ha
      obtain ⟨rfl, -⟩ := List.cons.inj hv
      exact absurd h.1 (by decide)
    | indirect =>
      obtain ⟨v, hv⟩ := addressing_eq_indirect_iff.1 ha
      obtain ⟨rfl, -⟩ := List.cons.inj hv
      exact absurd h.1 (by decide)

end LittleMan
