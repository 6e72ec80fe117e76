import LittleMan.Proofs.Dependence
import Mathlib.Data.List.Forall2

/-! Labels of records: which names a table of labels contains, and which definitions repeat one. Both
depend on the labels alone, and repeated definitions move along with their lines. -/

namespace LittleMan

def Record.defines (label : List CodePoint) (r : Record) : Bool := r.label.any (·.text == label)

namespace LabelTable

theorem contains_addRecord (t : LabelTable) (r : Record) (k : List CodePoint) :
    (t.addRecord r).contains k = (t.contains k || r.defines k) := by
  cases hl : r.label with
  | none => simp [addRecord, Record.defines, hl]
  | some w =>
    by_cases hk : t.contains w.text = true
    · cases hw : w.text == k with
      | false => simp [addRecord, Record.defines, hl, hk, hw]
      | true =>
        rw [beq_iff_eq] at hw
        simp [addRecord, Record.defines, hl, ← hw, hk]
    · rw [Bool.eq_iff_iff]
      simp only [addRecord, Record.defines, hl, hk, Bool.false_eq_true, if_false, contains_define,
        Option.any_some, Bool.or_eq_true, beq_iff_eq]
      rw [or_comm, eq_comm (a := k)]

theorem contains_ofRecords_eq (rs : List Record) (k : List CodePoint) :
    (ofRecords rs).contains k = rs.any (·.defines k) := by
  suffices h : ∀ t : LabelTable, (rs.foldl addRecord t).contains k =
      (t.contains k || rs.any (·.defines k)) by
    rw [ofRecords, h, contains_empty, Bool.false_or]
  induction rs with
  | nil => simp
  | cons r rs ih => simp [ih, contains_addRecord, Bool.or_assoc]

end LabelTable

/-- Records with the same labels, one line after the other, on lines renumbered by `f`. -/
abbrev SameLabels (f : Nat → Nat) : List Record → List Record → Prop :=
  List.Forall₂ fun r r' => r'.label = r.label ∧ r'.line = f r.line

theorem SameLabels.any_defines {f : Nat → Nat} {rs rs' : List Record} (h : SameLabels f rs rs')
    (k : List CodePoint) : rs'.any (·.defines k) = rs.any (·.defines k) := by
  induction h with
  | nil => rfl
  | @cons r r' rs rs' hr _ ih =>
    have hd : r'.defines k = r.defines k := by simp only [Record.defines, hr.1]
    simp only [List.any_cons, ih, hd]

/-- Repeated definitions are found by the labels alone, and of the labels known before only those count
that are defined again. -/
theorem SameLabels.repeatedLabels {f : Nat → Nat} {rs rs' : List Record} (h : SameLabels f rs rs')
    (known known' : LabelTable)
    (hk : ∀ k, rs.any (·.defines k) = true → known'.contains k = known.contains k) :
    repeatedLabels known' rs' = (repeatedLabels known rs).map fun p => (f p.1, p.2) := by
  induction h generalizing known known' with
  | nil => rfl
  | @cons r r' rs rs' hr _ ih =>
    have hrest := ih (known.addRecord r) (known'.addRecord r') fun k hd => by
      have hh := hk k (by simp [hd])
      simp only [LabelTable.contains_addRecord, hh, Record.defines, hr.1]
    simp only [LittleMan.repeatedLabels, hrest, hr.1, hr.2]
    cases hl : r.label with
    | none => rfl
    | some w =>
      have hw := hk w.text (by simp [Record.defines, hl])
      cases hc : known.contains w.text <;> simp [hw, hc]

theorem sameLabels_renumber (f : Nat → Nat) (rs : List Record) :
    SameLabels f rs (rs.map (Record.renumber f)) := by
  induction rs with
  | nil => exact .nil
  | cons r rs ih => exact .cons ⟨rfl, rfl⟩ ih

theorem sameLabels_refl (rs : List Record) : SameLabels id rs rs := by
  induction rs with
  | nil => exact .nil
  | cons r rs ih => exact .cons ⟨rfl, rfl⟩ ih

theorem sameLabels_replace {r r' : Record} (before after : List Record) (hl : r'.label = r.label)
    (hn : r'.line = r.line) : SameLabels id (before ++ r :: after) (before ++ r' :: after) :=
  List.rel_append (sameLabels_refl before) (.cons ⟨hl, hn⟩ (sameLabels_refl after))

theorem SameLabels.ofRecords_eq {rs rs' : List Record} (h : SameLabels id rs rs') :
    LabelTable.ofRecords rs' = LabelTable.ofRecords rs := by
  suffices hfold : ∀ t : LabelTable,
      rs'.foldl LabelTable.addRecord t = rs.foldl LabelTable.addRecord t from hfold .empty
  induction h with
  | nil => exact fun _ => rfl
  | @cons r r' rs rs' hr _ ih =>
    intro t
    have hadd : t.addRecord r' = t.addRecord r := by
      simp only [LabelTable.addRecord, hr.1, hr.2, id]
    rw [List.foldl_cons, List.foldl_cons, hadd, ih]

theorem repeatedLabels_insert {new : Record} {before after : List Record} (known : LabelTable)
    (hnew : ∀ name, new.defines name = true →
      (before ++ after).any (·.defines name) = false ∧ known.contains name = false) :
    repeatedLabels known (before ++ new :: after) = repeatedLabels known (before ++ after) := by
  induction before generalizing known with
  | nil =>
    have hskip : repeatedLabels known (new :: after) =
        repeatedLabels (known.addRecord new) after := by
      cases hl : new.label with
      | none => simp only [repeatedLabels, hl]
      | some w =>
        have hw := (hnew w.text (by simp [Record.defines, hl])).2
        simp only [repeatedLabels, hl, hw, Bool.false_eq_true, if_false]
    have hsame := (sameLabels_refl after).repeatedLabels known (known.addRecord new) fun k hd => by
      rw [LabelTable.contains_addRecord]
      cases hk : new.defines k with
      | false => exact Bool.or_false _
      | true =>
        have hnone := (hnew k hk).1
        simp [hd] at hnone
    simpa [hskip] using hsame
  | cons r before ih =>
    have hh := ih (known.addRecord r) fun name hd => by
      have hn := hnew name hd
      simp only [List.cons_append, List.any_cons, Bool.or_eq_false_iff] at hn
      exact ⟨hn.1.2, by rw [LabelTable.contains_addRecord, hn.1.1, hn.2, Bool.or_self]⟩
    simp only [List.cons_append, repeatedLabels, hh]

end LittleMan
