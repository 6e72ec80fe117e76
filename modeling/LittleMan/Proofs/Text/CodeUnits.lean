import LittleMan.Text.Units

/-! Texts as a client holds them, in UTF-16 code units. A character beyond the first 65536 takes two
units, and a text cannot be cut between them. A surrogate on its own is the one unit that it is, and a text
without any is known from its units. -/

namespace LittleMan

def codeUnits (c : CodePoint) : List Nat :=
  if c.toNat ≤ 0xffff then [c.toNat]
  else [0xd800 + (c.toNat - 0x10000) / 0x400, 0xdc00 + (c.toNat - 0x10000) % 0x400]

def encodeUnits (t : List CodePoint) : List Nat := t.flatMap codeUnits

def isHighHalf (u : Nat) : Bool := 0xd800 ≤ u && u < 0xdc00

def isLowHalf (u : Nat) : Bool := 0xdc00 ≤ u && u < 0xe000

/-- The text that code units stand for; half a character stands for none. -/
def decodeUnits? : List Nat → Option (List CodePoint)
  | [] => some []
  | u :: rest =>
    if isHighHalf u then
      match rest with
      | [] => none
      | v :: rest =>
        if isLowHalf v then
          (decodeUnits? rest).map (CodePoint.ofNat (0x10000 + (u - 0xd800) * 0x400 + (v - 0xdc00)) :: ·)
        else none
    else if isLowHalf u then none
    else (decodeUnits? rest).map (CodePoint.ofNat u :: ·)

/-- The cut after `n` units goes through the middle of a character. -/
def SplitsPair (units : List Nat) (n : Nat) : Prop :=
  ∃ before high low after, units = before ++ high :: low :: after ∧ n = before.length + 1 ∧
    isHighHalf high = true ∧ isLowHalf low = true

/-- Whether a text has an encoding, that is no surrogate on its own. -/
def IsEncodable (t : List CodePoint) : Prop := ∀ c ∈ t, c.isSurrogate = false

instance (t : List CodePoint) : Decidable (IsEncodable t) :=
  inferInstanceAs (Decidable (∀ c ∈ t, c.isSurrogate = false))

theorem isEncodable_append {s t : List CodePoint} :
    IsEncodable (s ++ t) ↔ IsEncodable s ∧ IsEncodable t := List.forall_mem_append

theorem isEncodable_of_ascii {t : List CodePoint} (h : ∀ c ∈ t, c.toNat < 128) : IsEncodable t := by
  intro c hc
  have hlt := h c hc
  rw [Bool.eq_false_iff, Ne, CodePoint.isSurrogate_iff]
  omega

theorem any_isSurrogate_eq_false_iff {t : List CodePoint} :
    t.any CodePoint.isSurrogate = false ↔ IsEncodable t := by simp [IsEncodable]

theorem encodeUnits_cons (c : CodePoint) (t : List CodePoint) :
    encodeUnits (c :: t) = codeUnits c ++ encodeUnits t := rfl

theorem encodeUnits_append (s t : List CodePoint) :
    encodeUnits (s ++ t) = encodeUnits s ++ encodeUnits t := List.flatMap_append

theorem length_codeUnits (c : CodePoint) : (codeUnits c).length = unitWidth c := by
  unfold codeUnits unitWidth
  split <;> split <;> first | rfl | omega

theorem length_encodeUnits (t : List CodePoint) : (encodeUnits t).length = unitLength t := by
  induction t with
  | nil => rfl
  | cons c t ih => rw [encodeUnits_cons, List.length_append, length_codeUnits, ih, unitLength]

theorem decodeUnits?_codeUnits {c : CodePoint} (h : c.isSurrogate = false) (units : List Nat) :
    decodeUnits? (codeUnits c ++ units) = (decodeUnits? units).map (c :: ·) := by
  have hlt := c.toNat_lt
  have hc : ¬ (0xd800 ≤ c.toNat ∧ c.toNat < 0xe000) := by
    rw [← CodePoint.isSurrogate_iff, h]
    exact Bool.false_ne_true
  by_cases hn : c.toNat ≤ 0xffff
  · have hhigh : isHighHalf c.toNat = false := by simp [isHighHalf]; omega
    have hlow : isLowHalf c.toNat = false := by simp [isLowHalf]; omega
    rw [codeUnits, if_pos hn, List.singleton_append, decodeUnits?.eq_def]
    simp only [hhigh, hlow, Bool.false_eq_true, if_false, CodePoint.ofNat_toNat]
  · -- The halves hold the upper and the lower ten bits of what is beyond 65536.
    have hhigh : isHighHalf (0xd800 + (c.toNat - 0x10000) / 0x400) = true := by
      simp [isHighHalf]; omega
    have hlow : isLowHalf (0xdc00 + (c.toNat - 0x10000) % 0x400) = true := by
      simp [isLowHalf]; omega
    have hback : 0x10000 + (0xd800 + (c.toNat - 0x10000) / 0x400 - 0xd800) * 0x400 +
        (0xdc00 + (c.toNat - 0x10000) % 0x400 - 0xdc00) = c.toNat := by omega
    simp only [codeUnits, hn, if_false, List.cons_append, List.nil_append, decodeUnits?, hhigh,
      hlow, if_true, hback, CodePoint.ofNat_toNat]

theorem decodeUnits?_encodeUnits {t : List CodePoint} (h : IsEncodable t) :
    decodeUnits? (encodeUnits t) = some t := by
  induction t with
  | nil => rfl
  | cons c t ih =>
    have hc := h c List.mem_cons_self
    have ht := ih fun d hd => h d (List.mem_cons_of_mem c hd)
    rw [encodeUnits_cons, decodeUnits?_codeUnits hc, ht, Option.map_some]

theorem getLast?_encodeUnits_not_isHighHalf {t : List CodePoint} (h : IsEncodable t) {u : Nat}
    (hu : (encodeUnits t).getLast? = some u) : isHighHalf u = false := by
  rcases List.eq_nil_or_concat t with rfl | ⟨t, c, rfl⟩
  · simp [encodeUnits] at hu
  · have hlt := c.toNat_lt
    have hc : ¬ (0xd800 ≤ c.toNat ∧ c.toNat < 0xe000) := by
      rw [← CodePoint.isSurrogate_iff, h c (by simp)]
      exact Bool.false_ne_true
    have hone : encodeUnits [c] = codeUnits c := List.append_nil _
    rw [List.concat_eq_append, encodeUnits_append, hone, codeUnits] at hu
    split at hu
    · rw [List.getLast?_append, List.getLast?_singleton, Option.some_or] at hu
      obtain rfl := Option.some.inj hu
      simp [isHighHalf]
      omega
    · rw [List.getLast?_append, List.getLast?_cons_cons, List.getLast?_singleton, Option.some_or] at hu
      obtain rfl := Option.some.inj hu
      simp [isHighHalf]

theorem not_splitsPair {s : List CodePoint} (h : IsEncodable s) (t : List CodePoint) :
    ¬ SplitsPair (encodeUnits s ++ encodeUnits t) (encodeUnits s).length := by
  rintro ⟨before, high, low, after, he, hn, hhigh, -⟩
  have hlast : (encodeUnits s).getLast? = some high := by
    have htake := congrArg (List.take (encodeUnits s).length) he
    rw [List.take_left, hn, List.append_cons, List.take_left' (by simp)] at htake
    rw [htake, List.getLast?_append, List.getLast?_singleton, Option.some_or]
  simp [getLast?_encodeUnits_not_isHighHalf h hlast] at hhigh

/-- A unit below the halves stands for a character of its own, and for that character only. -/
theorem mem_of_mem_encodeUnits {t : List CodePoint} {c : CodePoint} (hc : c.toNat < 0xd800)
    (h : c.toNat ∈ encodeUnits t) : c ∈ t := by
  obtain ⟨d, hd, hm⟩ := List.mem_flatMap.1 h
  rw [codeUnits] at hm
  split at hm
  · have he : c.toNat = d.toNat := List.mem_singleton.1 hm
    rwa [CodePoint.toNat_inj.1 he]
  · simp only [List.mem_cons, List.not_mem_nil, or_false] at hm
    omega

end LittleMan
