import LittleMan.Numeral
import LittleMan.Text.Digit
import Mathlib.Data.List.Forall2
import Mathlib.Data.Nat.Digits.Defs
import Mathlib.Tactic.IntervalCases

/-! The numerals of the language and the values they have by their places, and that reading finds just
these: all of them in bases 16, 8 and 2, and in base ten those that are not too long. -/

namespace LittleMan

namespace Numeral

/-- The character is a digit of the base, in either case, and counts `d`. -/
def IsDigit (base : Nat) (c : CodePoint) (d : Nat) : Prop :=
  d < base ∧ (c = d.digitChar ∨ c = d.digitChar.toUpper)

/-- One digit or more of the base, with the value that they have by their places. -/
def HasPlaces (base : Nat) (t : List CodePoint) (n : Nat) : Prop :=
  t ≠ [] ∧ ∃ ds, List.Forall₂ (IsDigit base) t ds ∧ n = Nat.ofDigits base ds.reverse

/-- The numerals and what they denote. -/
inductive Denotes : List CodePoint → Nat → Prop
  | decimal {t : List CodePoint} {n : Nat} (h : HasPlaces 10 t n) : Denotes t n
  | hexadecimal {c : CodePoint} {t : List CodePoint} {n : Nat} (hc : c = 'x' ∨ c = 'X')
      (h : HasPlaces 16 t n) : Denotes (.scalar '0' :: c :: t) n
  | octal {c : CodePoint} {t : List CodePoint} {n : Nat} (hc : c = 'o' ∨ c = 'O')
      (h : HasPlaces 8 t n) : Denotes (.scalar '0' :: c :: t) n
  | binary {c : CodePoint} {t : List CodePoint} {n : Nat} (hc : c = 'b' ∨ c = 'B')
      (h : HasPlaces 2 t n) : Denotes (.scalar '0' :: c :: t) n

theorem isDigit_of_hexValue? {c : CodePoint} {d : Nat} (h : hexValue? c = some d) : IsDigit 16 c d := by
  have hchar : ∀ k : CodePoint, c.toNat = k.toNat → c = k := fun _ => CodePoint.toNat_inj.1
  rw [hexValue?] at h
  split at h
  · next hc =>
    rw [CodePoint.isDigit_iff] at hc
    obtain rfl : c.toNat - 48 = d := Option.some.inj h
    have hlt : c.toNat - 48 < 10 := by omega
    refine ⟨by omega, Or.inl (hchar _ ?_)⟩
    rw [CodePoint.toNat_scalar, Nat.toNat_digitChar_of_lt_ten hlt]
    omega
  split at h
  · next hc =>
    obtain rfl : c.toNat - 97 + 10 = d := Option.some.inj h
    have hle : 97 ≤ c.toNat ∧ c.toNat ≤ 102 := hc
    refine ⟨by omega, Or.inl (hchar _ ?_)⟩
    obtain ⟨hlo, hhi⟩ := hle
    interval_cases c.toNat <;> rfl
  split at h
  · next hc =>
    obtain rfl : c.toNat - 65 + 10 = d := Option.some.inj h
    have hle : 65 ≤ c.toNat ∧ c.toNat ≤ 70 := hc
    refine ⟨by omega, Or.inr (hchar _ ?_)⟩
    obtain ⟨hlo, hhi⟩ := hle
    interval_cases c.toNat <;> rfl
  · cases h

theorem hexValue?_of_isDigit {c : CodePoint} {d : Nat} (h : IsDigit 16 c d) : hexValue? c = some d := by
  obtain ⟨hd, rfl | rfl⟩ := h
  · interval_cases d <;> rfl
  · interval_cases d <;> rfl

theorem digit?_eq_some_iff {base : Nat} (hb : base ≤ 16) {c : CodePoint} {d : Nat} :
    digit? base c = some d ↔ IsDigit base c d := by
  simp only [digit?, Option.filter_eq_some_iff, decide_eq_true_eq]
  constructor
  · rintro ⟨h, hd⟩
    exact ⟨hd, (isDigit_of_hexValue? h).2⟩
  · rintro ⟨hd, hc⟩
    exact ⟨hexValue?_of_isDigit ⟨Nat.lt_of_lt_of_le hd hb, hc⟩, hd⟩

theorem ofDigits_reverse (base : Nat) (ds : List Nat) :
    Nat.ofDigits base ds.reverse = ds.foldl (fun n d => base * n + d) 0 := by
  rw [Nat.ofDigits_eq_foldr, List.foldr_reverse]
  simp only [Nat.cast_id, Nat.add_comm]

theorem digits?_eq_some_iff {base : Nat} (hb : base ≤ 16) {t : List CodePoint} {n : Nat} :
    digits? base t = some n ↔ HasPlaces base t n := by
  have hfold : ∀ m, t.foldlM (fun n c => (digit? base c).map (base * n + ·)) m = some n ↔
      ∃ ds, List.Forall₂ (IsDigit base) t ds ∧ n = ds.foldl (fun n d => base * n + d) m := by
    induction t with
    | nil => simp [List.forall₂_nil_left_iff, eq_comm]
    | cons c t ih =>
      intro m
      simp only [List.foldlM_cons, Option.bind_eq_bind, Option.bind_eq_some_iff,
        Option.map_eq_some_iff, digit?_eq_some_iff hb, ih]
      constructor
      · rintro ⟨_, ⟨d, hd, rfl⟩, ds, hds, rfl⟩
        exact ⟨d :: ds, .cons hd hds, rfl⟩
      · rintro ⟨_, hall, rfl⟩
        obtain ⟨d, ds, hd, hds, rfl⟩ := List.forall₂_cons_left_iff.1 hall
        exact ⟨_, ⟨d, hd, rfl⟩, ds, hds, rfl⟩
  simp only [HasPlaces, ofDigits_reverse]
  cases t with
  | nil => simp [digits?]
  | cons c t => simp only [digits?, List.isEmpty_cons, Bool.false_eq_true, if_false, hfold, ne_eq,
      reduceCtorEq, not_false_eq_true, true_and]

theorem isDigit_of_ten {c : CodePoint} {d : Nat} (h : IsDigit 10 c d) : c.isDigit = true := by
  obtain ⟨hd, rfl | rfl⟩ := h
  · interval_cases d <;> rfl
  · interval_cases d <;> rfl

theorem digit?_of_isDigit {c : CodePoint} (h : c.isDigit = true) :
    digit? 10 c = some (c.toNat - '0'.toNat) := by
  have hlt : c.toNat - '0'.toNat < 10 := by
    rw [CodePoint.isDigit_iff] at h
    have hzero : '0'.toNat = 48 := rfl
    omega
  rw [digit?, hexValue?, if_pos h, Option.filter_some, if_pos (by simpa using hlt)]

theorem digits?_of_isDecimal {t : List CodePoint} (h : isDecimal t = true) :
    digits? 10 t = some (Decimal.value t) := by
  simp only [isDecimal, Bool.and_eq_true, Bool.not_eq_true', List.all_eq_true] at h
  obtain ⟨hne, hall⟩ := h
  rw [digits?, hne, if_neg Bool.false_ne_true, Decimal.value]
  generalize 0 = m
  clear hne
  induction t generalizing m with
  | nil => rfl
  | cons c t ih =>
    rw [List.foldlM_cons, digit?_of_isDigit (hall c List.mem_cons_self)]
    exact ih (fun x hx => hall x (List.mem_cons_of_mem _ hx)) _

theorem isDecimal_of_hasPlaces {t : List CodePoint} {n : Nat} (h : HasPlaces 10 t n) :
    isDecimal t = true := by
  obtain ⟨hne, ds, hds, -⟩ := h
  have hall : ∀ c ∈ t, c.isDigit = true := by
    clear hne
    induction hds with
    | nil => simp
    | cons hd _ ih =>
      intro c hc
      rcases List.mem_cons.1 hc with rfl | hc
      · exact isDigit_of_ten hd
      · exact ih c hc
  simpa [isDecimal, hne] using hall

theorem hasPlaces_ten_iff {t : List CodePoint} {n : Nat} :
    HasPlaces 10 t n ↔ isDecimal t = true ∧ Decimal.value t = n := by
  constructor
  · intro h
    have ht := isDecimal_of_hasPlaces h
    have hvalue := digits?_of_isDecimal ht
    rw [(digits?_eq_some_iff (by omega)).2 h] at hvalue
    exact ⟨ht, (Option.some.inj hvalue).symm⟩
  · rintro ⟨ht, rfl⟩
    exact (digits?_eq_some_iff (by omega)).1 (digits?_of_isDecimal ht)

theorem isDecimal_base {c : CodePoint} (hc : base? c ≠ none) (t : List CodePoint) :
    isDecimal (.scalar '0' :: c :: t) = false := by
  have hd : c.isDigit = false := by
    by_contra hd
    refine hc ?_
    rw [Bool.not_eq_false, CodePoint.isDigit_iff] at hd
    have hne : ∀ k : Char, 57 < k.toNat → c ≠ .scalar k := by
      rintro k hk rfl
      have hle : k.toNat ≤ 57 := hd.2
      omega
    simp [base?, hne]
  simp [isDecimal, hd]

theorem radix?_eq_some_iff {t : List CodePoint} {n : Nat} :
    radix? t = some n ↔ isDecimal t = false ∧ Denotes t n := by
  constructor
  · intro h
    unfold radix? at h
    split at h
    · next c t =>
      obtain ⟨base, hb, ht⟩ := Option.bind_eq_some_iff.1 h
      refine ⟨isDecimal_base (by simp [hb]) t, ?_⟩
      rw [base?] at hb
      split at hb
      · next hc =>
        obtain rfl := Option.some.inj hb
        exact .hexadecimal hc ((digits?_eq_some_iff (by omega)).1 ht)
      split at hb
      · next hc =>
        obtain rfl := Option.some.inj hb
        exact .octal hc ((digits?_eq_some_iff (by omega)).1 ht)
      split at hb
      · next hc =>
        obtain rfl := Option.some.inj hb
        exact .binary hc ((digits?_eq_some_iff (by omega)).1 ht)
      · cases hb
    · cases h
  · rintro ⟨ht, h⟩
    cases h with
    | decimal h =>
      have habs := (hasPlaces_ten_iff.1 h).1
      simp [ht] at habs
    | hexadecimal hc h | octal hc h | binary hc h =>
      have hdigits := (digits?_eq_some_iff (by omega)).2 h
      rcases hc with rfl | rfl <;> exact hdigits

theorem denotes_iff_of_isDecimal {t : List CodePoint} {n : Nat} (ht : isDecimal t = true) :
    Denotes t n ↔ HasPlaces 10 t n := by
  refine ⟨fun h => ?_, .decimal⟩
  cases h with
  | decimal h => exact h
  | hexadecimal hc _ | octal hc _ | binary hc _ =>
    rw [isDecimal_base (by rcases hc with rfl | rfl <;> decide)] at ht
    cases ht

/-- A numeral has a value if it denotes one that fits and, in base ten, is not too long. -/
theorem read_eq_ok_iff {t : List CodePoint} {n : Nat} :
    read t = .ok n ↔
      Denotes t n ∧ n ≤ maxValue ∧ (isDecimal t = true → t.length ≤ Decimal.digitLimit) := by
  have hbound : ∀ m : Nat, (if maxValue < m then Except.error Issue.outOfRange else .ok m) = .ok n ↔
      m = n ∧ n ≤ maxValue := by
    intro m
    by_cases hm : maxValue < m
    · simp only [hm, if_true, reduceCtorEq, false_iff, not_and]
      omega
    · simp only [hm, if_false, Except.ok.injEq]
      omega
  cases ht : isDecimal t with
  | true =>
    have hd : Denotes t n ↔ Decimal.value t = n := by
      rw [denotes_iff_of_isDecimal ht, hasPlaces_ten_iff, ht]
      exact and_iff_right rfl
    by_cases hl : Decimal.digitLimit < t.length
    · simp [read, ht, hl]
    · simp only [read, ht, hl, if_true, if_false, hbound, hd, forall_const, Nat.not_lt.1 hl, and_true]
  | false =>
    have hd : radix? t = some n ↔ Denotes t n := by
      rw [radix?_eq_some_iff, ht]
      simp
    rw [← hd]
    cases hr : radix? t with
    | none => simp [read, ht, hr]
    | some m => simp [read, ht, hr, hbound]

end Numeral

end LittleMan
