import LittleMan.Proofs.Text.CodeUnits
import LittleMan.Proofs.Text.Columns
import Mathlib

/-! Reading a column in UTF-16 code units is adjoint to writing one: it gives the least column in characters
that reaches the units. So written columns grow strictly and are read back as they were, and units
inside a character are read as the column behind it. Reading counts a surrogate on its own as one unit, but
no column behind one is written. -/

namespace LittleMan

variable {text : List CodePoint}

theorem gc_columns (text : List CodePoint) :
    GaloisConnection (fun units : Int => (ofUnits text units).toNat)
      (fun col : Nat => unitColumn text col) := by
  intro units col
  have hnonneg := ofUnits_nonneg text units
  rw [← ofUnits_le_iff, Int.toNat_le]

theorem strictMono_unitColumn (text : List CodePoint) : StrictMono fun col : Nat => unitColumn text col := by
  have hinsertion := (gc_columns text).toGaloisInsertion fun col => by
    rw [ofUnits_unitColumn, Int.toNat_natCast]
  exact hinsertion.strictMono_u

theorem unitColumn_eq_length_encodeUnits (text : List CodePoint) (col : Nat) :
    unitColumn text col = (encodeUnits (text.take col)).length + max ((col : Int) - text.length) 0 := by
  rw [unitColumn_natCast, length_encodeUnits]
  omega

/-- The next column is one unit further on, or two behind a character that takes two. -/
theorem unitColumn_succ (text : List CodePoint) (col : Nat) :
    unitColumn text (col + 1 : Nat) = unitColumn text col + ((text[col]?.map unitWidth).getD 1 : Nat) := by
  rw [unitColumn_natCast, unitColumn_natCast, List.take_add_one, unitLength_append]
  cases hc : text[col]? with
  | none =>
    have hle := List.getElem?_eq_none_iff.1 hc
    simp [unitLength]
    omega
  | some c =>
    have hlt := (List.getElem?_eq_some_iff.1 hc).1
    simp [unitLength]
    omega

theorem unitColumn_of_length_le {col : Nat} (h : text.length ≤ col) :
    unitColumn text col = unitLength text + (col - text.length : Nat) := by
  rw [unitColumn_natCast, List.take_of_length_le h]
  omega

theorem not_splitsPair_of_toUnits {col n : Nat} (h : toUnits text col = .ok n) :
    ¬ SplitsPair (encodeUnits text) n := by
  obtain ⟨hencodable, hunits⟩ := toUnits_eq_ok_iff.1 h
  by_cases hle : col ≤ text.length
  · have hn : n = (encodeUnits (text.take col)).length := by
      rw [unitColumn_natCast] at hunits
      rw [length_encodeUnits]
      omega
    have hsplit := not_splitsPair hencodable (text.drop col)
    rwa [← encodeUnits_append, List.take_append_drop, ← hn] at hsplit
  · rw [unitColumn_of_length_le (by omega), ← length_encodeUnits] at hunits
    rintro ⟨before, high, low, after, he, hn, -, -⟩
    rw [he] at hunits
    simp only [List.length_append, List.length_cons] at hunits
    omega

theorem exists_halves {c : CodePoint} (hw : unitWidth c = 2) :
    ∃ high low, codeUnits c = [high, low] ∧ isHighHalf high = true ∧ isLowHalf low = true := by
  have hwide : ¬ c.toNat ≤ 0xffff := by
    intro hle
    rw [unitWidth, if_neg (Nat.not_lt.2 hle)] at hw
    omega
  have hvalid := c.toNat_lt
  refine ⟨_, _, if_neg hwide, ?_, ?_⟩
  · simp [isHighHalf]
    omega
  · simp [isLowHalf]
    omega

theorem splitsPair_of_wide {col n : Nat} {c : CodePoint} (hc : text[col]? = some c)
    (hw : unitWidth c = 2) (hn : unitColumn text col + 1 = n) : SplitsPair (encodeUnits text) n := by
  obtain ⟨hlt, hget⟩ := List.getElem?_eq_some_iff.1 hc
  obtain ⟨high, low, hunits, hhigh, hlow⟩ := exists_halves hw
  have hsplit : text = text.take col ++ c :: text.drop (col + 1) := by
    rw [← hget, ← List.drop_eq_getElem_cons, List.take_append_drop]
  refine ⟨encodeUnits (text.take col), high, low, encodeUnits (text.drop (col + 1)), ?_, ?_, hhigh, hlow⟩
  · calc
      encodeUnits text = encodeUnits (text.take col ++ c :: text.drop (col + 1)) :=
        congrArg encodeUnits hsplit
      _ = _ := by rw [encodeUnits_append, encodeUnits_cons, hunits]; rfl
  · rw [unitColumn_eq_length_encodeUnits] at hn
    omega

/-- Units are read as a column that is written as they are, or as one unit more where they are inside a
character. -/
theorem unitColumn_ofUnits (text : List CodePoint) (units : Int) :
    unitColumn text (ofUnits text units) = max units 0 ∨
      ∃ n : Nat, units = n ∧ SplitsPair (encodeUnits text) n ∧
        unitColumn text (ofUnits text units) = units + 1 := by
  obtain ⟨col, hcol⟩ := Int.eq_ofNat_of_zero_le (ofUnits_nonneg text units)
  have hreach : units ≤ unitColumn text col := ofUnits_le_iff.1 (Int.le_of_eq hcol)
  rw [hcol]
  cases col with
  | zero =>
    rw [Int.natCast_zero, unitColumn_zero] at hreach ⊢
    omega
  | succ col =>
    -- The column before does not reach the units, and the last step is of one unit or of two.
    have hbefore : unitColumn text col < units := by
      rw [← Int.not_le, ← ofUnits_le_iff]
      omega
    have hnonneg : 0 ≤ unitColumn text col := by
      rw [unitColumn_natCast]
      omega
    have hstep := unitColumn_succ text col
    cases hc : text[col]? with
    | none =>
      simp only [hc, Option.map_none, Option.getD_none] at hstep
      omega
    | some c =>
      simp only [hc, Option.map_some, Option.getD_some] at hstep
      by_cases hw : unitWidth c = 2
      · by_cases hin : unitColumn text col + 1 = units
        · obtain ⟨n, rfl⟩ := Int.eq_ofNat_of_zero_le (show 0 ≤ units by omega)
          exact Or.inr ⟨n, rfl, splitsPair_of_wide hc hw hin, by omega⟩
        · omega
      · have hone : unitWidth c = 1 := by
          unfold unitWidth at hw ⊢
          split <;> simp_all
        omega

theorem ofUnits_beyond (text : List CodePoint) (k : Nat) :
    ofUnits text ((encodeUnits text).length + k) = text.length + k := by
  have hwritten : unitColumn text (text.length + k : Nat) =
      unitLength text + (text.length + k - text.length : Nat) :=
    unitColumn_of_length_le (Nat.le_add_right text.length k)
  have hback := ofUnits_unitColumn text (text.length + k)
  rw [hwritten, ← length_encodeUnits, Nat.add_sub_cancel_left] at hback
  rw [hback]
  rfl

/-- The columns of a line in characters and in code units. -/
structure AdjointColumns (text : List CodePoint) : Prop where
  written_eq : ∀ col : Int, 0 ≤ col → toUnits text col =
    if IsEncodable (text.take col.toNat) then
      .ok ((encodeUnits (text.take col.toNat)).length + max (col - text.length) 0)
    else .error .loneSurrogate
  le_iff : ∀ units col n : Int, 0 ≤ col → toUnits text col = .ok n →
    (ofUnits text units ≤ col ↔ units ≤ n)
  least : ∀ units : Int, IsLeast {col : Int | 0 ≤ col ∧ units ≤ unitColumn text col} (ofUnits text units)
  inside : ∀ n m, SplitsPair (encodeUnits text) n → toUnits text (ofUnits text n) = .ok m → m = n + 1
  outside : ∀ units m : Int, (∀ n : Nat, units = n → ¬ SplitsPair (encodeUnits text) n) →
    toUnits text (ofUnits text units) = .ok m → m = max units 0
  beyond : ∀ k : Nat, ofUnits text ((encodeUnits text).length + k) = text.length + k
  strictMono : ∀ a b m n : Int, 0 ≤ a → a < b → toUnits text a = .ok m → toUnits text b = .ok n → m < n
  read_back : ∀ col n : Int, 0 ≤ col → toUnits text col = .ok n → ofUnits text n = col

theorem adjointColumns (text : List CodePoint) : AdjointColumns text := by
  have hadjoint : ∀ units col : Int, 0 ≤ col →
      (ofUnits text units ≤ col ↔ units ≤ unitColumn text col) := by
    intro units col hcol
    obtain ⟨col, rfl⟩ := Int.eq_ofNat_of_zero_le hcol
    exact ofUnits_le_iff
  have hwritten : ∀ col n : Int, 0 ≤ col → toUnits text col = .ok n → unitColumn text col = n := by
    intro col n hcol hn
    obtain ⟨col, rfl⟩ := Int.eq_ofNat_of_zero_le hcol
    exact (toUnits_eq_ok_iff.1 hn).2
  constructor
  case written_eq =>
    intro col hcol
    obtain ⟨col, rfl⟩ := Int.eq_ofNat_of_zero_le hcol
    rw [toUnits_natCast, unitColumn_eq_length_encodeUnits, Int.toNat_natCast]
  case le_iff =>
    intro units col n hcol hn
    rw [hadjoint units col hcol, hwritten col n hcol hn]
  case least =>
    intro units
    have hnonneg := ofUnits_nonneg text units
    refine ⟨⟨hnonneg, (hadjoint units _ hnonneg).1 (Int.le_refl _)⟩, fun col hcol => ?_⟩
    exact (hadjoint units col hcol.1).2 hcol.2
  case inside =>
    intro n m hsplit hm
    have hunits := hwritten _ _ (ofUnits_nonneg text n) hm
    rcases unitColumn_ofUnits text n with h | ⟨-, -, -, h⟩
    · obtain ⟨col, hcol⟩ := Int.eq_ofNat_of_zero_le (ofUnits_nonneg text n)
      rw [Int.max_eq_left (Int.natCast_nonneg n), hunits] at h
      rw [hcol, h] at hm
      exact absurd hsplit (not_splitsPair_of_toUnits hm)
    · rw [← hunits, h]
  case outside =>
    intro units m hsplit hm
    have hunits := hwritten _ _ (ofUnits_nonneg text units) hm
    rcases unitColumn_ofUnits text units with h | ⟨n, hn, hin, -⟩
    · rw [← hunits, h]
    · exact absurd hin (hsplit n hn)
  case beyond => exact ofUnits_beyond text
  case strictMono =>
    intro a b m n ha hab hm hn
    rw [← hwritten a m ha hm, ← hwritten b n (Int.le_trans ha (Int.le_of_lt hab)) hn]
    obtain ⟨a, rfl⟩ := Int.eq_ofNat_of_zero_le ha
    obtain ⟨b, rfl⟩ := Int.eq_ofNat_of_zero_le (Int.le_trans ha (Int.le_of_lt hab))
    exact strictMono_unitColumn text (Int.ofNat_lt.1 hab)
  case read_back =>
    intro col n hcol hn
    rw [← hwritten col n hcol hn]
    obtain ⟨col, rfl⟩ := Int.eq_ofNat_of_zero_le hcol
    exact ofUnits_unitColumn text col

example : toUnits ['𝄞', 'a'] 1 = .ok 2 ∧ ofUnits ['𝄞', 'a'] 1 = 1 := by decide

/-- The column behind a surrogate on its own is read, but not written. -/
theorem not_toUnits_eq_ok : ¬ ∀ (text : List CodePoint) (units col : Int), 0 ≤ col →
    ∃ n, toUnits text col = .ok n ∧ (ofUnits text units ≤ col ↔ units ≤ n) := by
  intro h
  obtain ⟨n, hn, -⟩ := h [.ofNat 0xd800] 1 1 (by decide)
  have herror : toUnits [.ofNat 0xd800] 1 = .error .loneSurrogate := rfl
  rw [herror] at hn
  cases hn

end LittleMan
