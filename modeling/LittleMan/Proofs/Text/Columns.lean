import LittleMan.Proofs.Text.CodeUnits

/-! Columns in characters and in UTF-16 code units. A column that was written in units is read back as
it was, whatever characters stand before it. Reading rounds up inside a character, so two columns
compare alike in characters and in units if the right one was written; if the left one was written,
they do so if only characters of one unit stand before it. Only columns behind text that has an encoding
are written at all. -/

namespace LittleMan

theorem unitColumn_natCast (line : List CodePoint) (col : Nat) :
    unitColumn line col = (unitLength (line.take col) + (col - line.length) : Nat) := by
  have hslice : slice line 0 col = line.take col := slice_natCast line 0 col
  rw [unitColumn, hslice]
  omega

theorem unitColumn_zero (line : List CodePoint) : unitColumn line 0 = 0 := by
  have h := unitColumn_natCast line 0
  simpa [unitLength] using h

theorem unitColumn_nil (col : Nat) : unitColumn [] col = col := by
  simp [unitColumn_natCast, unitLength]

theorem unitColumn_cons_succ (c : CodePoint) (rest : List CodePoint) (col : Nat) :
    unitColumn (c :: rest) (col + 1 : Nat) = unitWidth c + unitColumn rest col := by
  simp only [unitColumn_natCast, List.take_succ_cons, unitLength, List.length_cons]
  omega

theorem ofUnits_unitColumn (line : List CodePoint) (col : Nat) :
    ofUnits line (unitColumn line col) = col := by
  induction line generalizing col with
  | nil =>
    rw [unitColumn_nil, ofUnits]
    omega
  | cons c rest ih =>
    cases col with
    | zero => simp [unitColumn_zero, ofUnits]
    | succ col =>
      have hc := unitWidth_pos c
      have hrest : 0 ≤ unitColumn rest col := by
        rw [unitColumn_natCast]
        omega
      have hpos : ¬ (unitWidth c : Int) + unitColumn rest col ≤ 0 := by omega
      have hback : (unitWidth c : Int) + unitColumn rest col - unitWidth c = unitColumn rest col := by omega
      rw [unitColumn_cons_succ, ofUnits, if_neg hpos, hback, ih]
      omega

theorem ofUnits_le_iff {line : List CodePoint} {units : Int} {col : Nat} :
    ofUnits line units ≤ col ↔ units ≤ unitColumn line col := by
  induction line generalizing units col with
  | nil =>
    rw [unitColumn_nil, ofUnits]
    omega
  | cons c rest ih =>
    have hc := unitWidth_pos c
    by_cases hu : units ≤ 0
    · have hcol : 0 ≤ unitColumn (c :: rest) col := by
        rw [unitColumn_natCast]
        omega
      rw [ofUnits, if_pos hu]
      omega
    · rw [ofUnits, if_neg hu]
      cases col with
      | zero =>
        have hrest := ofUnits_nonneg rest (units - unitWidth c)
        rw [Int.natCast_zero, unitColumn_zero]
        omega
      | succ col =>
        have hh : ofUnits rest (units - unitWidth c) ≤ col ↔
            units - unitWidth c ≤ unitColumn rest col := ih
        rw [unitColumn_cons_succ]
        omega

theorem le_ofUnits_iff {line : List CodePoint} {units : Int} {col : Nat} (hu : 0 ≤ units)
    (hw : ∀ c ∈ line.take col, unitWidth c = 1) :
    (col : Int) ≤ ofUnits line units ↔ unitColumn line col ≤ units := by
  induction line generalizing units col with
  | nil =>
    rw [unitColumn_nil, ofUnits]
    omega
  | cons c rest ih =>
    cases col with
    | zero =>
      have hpos := ofUnits_nonneg (c :: rest) units
      rw [Int.natCast_zero, unitColumn_zero]
      omega
    | succ col =>
      have hc : unitWidth c = 1 := hw c List.mem_cons_self
      have hrest : 0 ≤ unitColumn rest col := by
        rw [unitColumn_natCast]
        omega
      rw [unitColumn_cons_succ, ofUnits, hc, Int.ofNat_one]
      by_cases hz : units ≤ 0
      · rw [if_pos hz]
        omega
      · have hh : (col : Int) ≤ ofUnits rest (units - 1) ↔ unitColumn rest col ≤ units - 1 :=
          ih (by omega) fun d hd => hw d (List.mem_cons_of_mem _ hd)
        rw [if_neg hz]
        omega

theorem unitWidth_of_ascii {c : CodePoint} (h : c.toNat < 128) : unitWidth c = 1 := by
  rw [unitWidth, if_neg (by omega)]

theorem unitLength_of_ascii {t : List CodePoint} (h : ∀ c ∈ t, c.toNat < 128) : unitLength t = t.length := by
  induction t with
  | nil => rfl
  | cons c t ih =>
    have hc := unitWidth_of_ascii (h c List.mem_cons_self)
    have ht := ih fun d hd => h d (List.mem_cons_of_mem c hd)
    rw [unitLength, hc, ht, List.length_cons, Nat.add_comm]

theorem unitColumn_of_ascii {line : List CodePoint} {col : Nat} (hcol : col ≤ line.length)
    (h : ∀ c ∈ line.take col, c.toNat < 128) : unitColumn line col = col := by
  have hlength : (line.take col).length = col := by
    rw [List.length_take]
    omega
  rw [unitColumn_natCast, unitLength_of_ascii h, hlength]
  omega

theorem toUnits_natCast (line : List CodePoint) (col : Nat) :
    toUnits line col =
      if IsEncodable (line.take col) then .ok (unitColumn line col) else .error .loneSurrogate := by
  have hslice : slice line 0 col = line.take col := slice_natCast line 0 col
  rw [toUnits, hslice]
  by_cases h : IsEncodable (line.take col)
  · rw [any_isSurrogate_eq_false_iff.2 h, if_neg Bool.false_ne_true, if_pos h]
  · have hany : (line.take col).any CodePoint.isSurrogate = true := by
      rwa [← Bool.not_eq_false, any_isSurrogate_eq_false_iff]
    rw [hany, if_pos rfl, if_neg h]

theorem toUnits_eq_ok_iff {line : List CodePoint} {col : Nat} {units : Int} :
    toUnits line col = .ok units ↔ IsEncodable (line.take col) ∧ unitColumn line col = units := by
  rw [toUnits_natCast]
  by_cases h : IsEncodable (line.take col) <;> simp [h]

theorem toUnits_of_isEncodable {line : List CodePoint} {col : Nat} (h : IsEncodable (line.take col)) :
    toUnits line col = .ok (unitColumn line col) := toUnits_eq_ok_iff.2 ⟨h, rfl⟩

end LittleMan
