import LittleMan.Proofs.LongNumerals

/-! What is read as a numeral: the digits of four bases, with the value that they have by their places. The
value may be too large, and then the text is refused as out of range; a decimal may be too long, and then
nothing is said of its value. All else is no numeral. -/

namespace LittleMan

namespace Numeral

/-- The text is a numeral with the value `n`: in base ten at most 4300 digits, in the other bases any number
of them after the mark of the base. -/
def IsNumeral (t : List CodePoint) (n : Nat) : Prop := Denotes t n ∧ ¬ IsOverlong t

/-- How a text is read. -/
structure ReadByPlaces (t : List CodePoint) : Prop where
  value : ∀ n, read t = .ok n ↔ IsNumeral t n ∧ n ≤ 2 ^ 64 - 1
  overlong : read t = .error .tooManyDigits ↔ IsOverlong t
  refused : (∃ issue message, read t = .error issue ∧ issue.message t = some message) ↔
    ¬ IsOverlong t ∧ ∀ n, ¬ (IsNumeral t n ∧ n ≤ 2 ^ 64 - 1)
  outOfRange : (∃ issue, read t = .error issue ∧
      issue.message t = some ("Value " ++ Text.ofList t ++ " out of range (0-18446744073709551615)")) ↔
    ∃ n, IsNumeral t n ∧ 2 ^ 64 - 1 < n

/-- The bases in which numerals are written. -/
inductive Radix where
  | decimal
  | hexadecimal
  | octal
  | binary
  deriving DecidableEq, Repr

namespace Radix

def base : Radix → Nat
  | decimal => 10
  | hexadecimal => 16
  | octal => 8
  | binary => 2

def mark : Radix → List CodePoint
  | decimal => []
  | hexadecimal => [.scalar '0', .scalar 'x']
  | octal => [.scalar '0', .scalar 'o']
  | binary => [.scalar '0', .scalar 'b']

/-- The numeral of a number, without leading zeros. -/
def render (r : Radix) (n : Nat) : List CodePoint := r.mark ++ (Nat.toDigits r.base n).map .scalar

end Radix

section

variable {base n m : Nat} {t : List CodePoint} {issue : Issue}

theorem isDigit_digitChar {d : Nat} (h : d < base) : IsDigit base d.digitChar d := ⟨h, Or.inl rfl⟩

theorem HasPlaces.concat {c : CodePoint} {d : Nat} (h : HasPlaces base t n) (hc : IsDigit base c d) :
    HasPlaces base (t ++ [c]) (base * n + d) := by
  obtain ⟨-, ds, hds, rfl⟩ := h
  refine ⟨by simp, ds ++ [d], List.rel_append hds (.cons hc .nil), ?_⟩
  rw [List.reverse_append, List.reverse_singleton, List.singleton_append, Nat.ofDigits_cons]
  exact Nat.add_comm _ _

theorem hasPlaces_toDigits (hb : 1 < base) (n : Nat) :
    HasPlaces base ((Nat.toDigits base n).map .scalar) n := by
  induction n using Nat.strongRecOn with
  | ind n ih =>
    rw [Nat.toDigits_eq_if hb]
    split
    · next hn => exact ⟨by simp, [n], .cons (isDigit_digitChar hn) .nil, by simp⟩
    · next hn =>
      have hlast := isDigit_digitChar (Nat.mod_lt n (by omega : 0 < base))
      have hplaces := (ih (n / base) (Nat.div_lt_self (by omega) hb)).concat hlast
      rw [List.map_append]
      rwa [Nat.div_add_mod] at hplaces

theorem Denotes.unique (h : Denotes t n) (h' : Denotes t m) : n = m := by
  cases ht : isDecimal t with
  | true =>
    rw [denotes_iff_of_isDecimal ht, hasPlaces_ten_iff] at h h'
    exact h.2.symm.trans h'.2
  | false =>
    have hread := radix?_eq_some_iff.2 ⟨ht, h⟩
    exact Option.some.inj (hread.symm.trans (radix?_eq_some_iff.2 ⟨ht, h'⟩))

theorem read_of_isNumeral (h : IsNumeral t n) :
    read t = if maxValue < n then .error .outOfRange else .ok n := by
  obtain ⟨hd, hlong⟩ := h
  cases ht : isDecimal t with
  | true =>
    have hl : ¬ Decimal.digitLimit < t.length := fun hl => hlong (isOverlong_iff.2 ⟨ht, hl⟩)
    rw [denotes_iff_of_isDecimal ht, hasPlaces_ten_iff] at hd
    rw [read, if_pos ht, if_neg hl, hd.2]
  | false =>
    rw [read, if_neg (by simp [ht]), radix?_eq_some_iff.2 ⟨ht, hd⟩]

theorem exists_isNumeral (h : read t ≠ .error .tooManyDigits) (h' : read t ≠ .error .notNumeral) :
    ∃ n, IsNumeral t n := by
  have hlong : ¬ IsOverlong t := fun hlong => h (read_eq_tooManyDigits_iff.2 hlong)
  cases ht : isDecimal t with
  | true => exact ⟨_, .decimal (hasPlaces_ten_iff.2 ⟨ht, rfl⟩), hlong⟩
  | false =>
    cases hr : radix? t with
    | none => simp [read, ht, hr] at h'
    | some n => exact ⟨n, (radix?_eq_some_iff.1 hr).2, hlong⟩

theorem read_eq_outOfRange_iff :
    read t = .error .outOfRange ↔ ∃ n, IsNumeral t n ∧ maxValue < n := by
  constructor
  · intro h
    obtain ⟨n, hn⟩ := exists_isNumeral (t := t) (by simp [h]) (by simp [h])
    refine ⟨n, hn, ?_⟩
    rw [read_of_isNumeral hn] at h
    by_contra hle
    simp [hle] at h
  · rintro ⟨n, hn, hlt⟩
    rw [read_of_isNumeral hn, if_pos hlt]

theorem message_eq_outOfRange_iff :
    issue.message t =
        some ("Value " ++ Text.ofList t ++ " out of range (0-18446744073709551615)") ↔
      issue = .outOfRange := by
  have hmax : "Value " ++ Text.ofList t ++ " out of range (0-" ++ toString maxValue ++ ")" =
      "Value " ++ Text.ofList t ++ " out of range (0-18446744073709551615)" := by
    have htail : (" out of range (0-" : Text) ++ (toString maxValue ++ ")") =
        " out of range (0-18446744073709551615)" := by decide +kernel
    rw [Text.append_assoc, Text.append_assoc, htail]
  have hother : "Not a number: `" ++ Text.ofList t ++ "`" ≠
      "Value " ++ Text.ofList t ++ " out of range (0-18446744073709551615)" := by
    intro h
    have hhead := congrArg (fun s : Text => s.toList.head?) h
    cases hhead
  cases issue with
  | notNumeral => simp [Issue.message, hother]
  | outOfRange => simp only [Issue.message, hmax]
  | tooManyDigits => simp [Issue.message]

theorem readByPlaces (t : List CodePoint) : ReadByPlaces t := by
  have hvalue : ∀ n, read t = .ok n ↔ IsNumeral t n ∧ n ≤ 2 ^ 64 - 1 := by
    intro n
    have hshort : ¬ IsOverlong t ↔ (isDecimal t = true → t.length ≤ Decimal.digitLimit) := by
      rw [isOverlong_iff, not_and, Nat.not_lt]
    rw [read_eq_ok_iff, IsNumeral, hshort, and_right_comm, and_assoc]
    rfl
  have hrefused : (∃ issue message, read t = .error issue ∧ issue.message t = some message) ↔
      ¬ read t = .error .tooManyDigits ∧ ∀ n, ¬ read t = .ok n := by
    rcases read t with issue | n
    · cases issue <;> simp [Issue.message]
    · simp
  have houtOfRange : (∃ issue, read t = .error issue ∧ issue.message t =
      some ("Value " ++ Text.ofList t ++ " out of range (0-18446744073709551615)")) ↔
        ∃ n, IsNumeral t n ∧ 2 ^ 64 - 1 < n := by
    simp only [message_eq_outOfRange_iff, exists_eq_right]
    exact read_eq_outOfRange_iff
  simp only [read_eq_tooManyDigits_iff, hvalue] at hrefused
  exact ⟨hvalue, read_eq_tooManyDigits_iff, hrefused, houtOfRange⟩

theorem denotes_render (r : Radix) (n : Nat) : Denotes (r.render n) n := by
  cases r with
  | decimal => exact .decimal (hasPlaces_toDigits (by decide) n)
  | hexadecimal => exact .hexadecimal (Or.inl rfl) (hasPlaces_toDigits (by decide) n)
  | octal => exact .octal (Or.inl rfl) (hasPlaces_toDigits (by decide) n)
  | binary => exact .binary (Or.inl rfl) (hasPlaces_toDigits (by decide) n)

theorem not_isOverlong_render (r : Radix) (hn : n ≤ maxValue) : ¬ IsOverlong (r.render n) := by
  rintro ⟨hlong, hdigits⟩
  cases r with
  | decimal =>
    have hlength : (Nat.toDigits 10 n).length ≤ 20 :=
      (Nat.length_toDigits_le_iff (by decide) (by decide)).2 (Nat.lt_of_le_of_lt hn (by decide))
    exact absurd hlong (by simp [Radix.render, Radix.mark, Radix.base]; omega)
  | hexadecimal => exact absurd (hdigits (.scalar 'x') (by simp [Radix.render, Radix.mark])) (by decide)
  | octal => exact absurd (hdigits (.scalar 'o') (by simp [Radix.render, Radix.mark])) (by decide)
  | binary => exact absurd (hdigits (.scalar 'b') (by simp [Radix.render, Radix.mark])) (by decide)

/-- A text has the value of the numeral that it is, and no other text has one. So a number that fits in 64
bits is read back from its numerals, and no value is read from those of a larger one. -/
theorem read_numerals :
    (∀ t, ReadByPlaces t) ∧
      ∀ (r : Radix) (n m : Nat), read (r.render n) = .ok m ↔ m = n ∧ n ≤ 2 ^ 64 - 1 := by
  refine ⟨readByPlaces, fun r n m => ?_⟩
  have hdenotes := denotes_render r n
  rw [(readByPlaces _).value]
  constructor
  · rintro ⟨⟨hd, -⟩, hm⟩
    obtain rfl := hd.unique hdenotes
    exact ⟨rfl, hm⟩
  · rintro ⟨rfl, hm⟩
    exact ⟨⟨hdenotes, not_isOverlong_render r hm⟩, hm⟩

end

end Numeral

end LittleMan
