import LittleMan.Proofs.Labels
import LittleMan.Proofs.Origin

/-! The analysis of records among which another one is put. Diagnostics move along with their lines; what
else changes is settled by the label of the new record. -/

namespace LittleMan

namespace Analysis

theorem filter_duplicates (label : List CodePoint) (rs : List Record) :
    (duplicates rs).filter (!asksFor label ·) = duplicates rs := by
  refine List.filter_eq_self.2 fun d hd => ?_
  simp [asksFor, kind_of_mem_duplicates hd]

theorem duplicates_renumber (f : Nat → Nat) (rs : List Record) :
    duplicates (rs.map (Record.renumber f)) = (duplicates rs).map (Diagnostic.renumber f) := by
  rw [duplicates, (sameLabels_renumber f rs).repeatedLabels .empty .empty fun _ _ => rfl, duplicates,
    List.map_map, List.map_map]
  exact List.map_congr_left fun p _ => report_renumber f _ _ _ _

/-- Where the records of a text are those of another one on other lines, the same is reported on those
lines. -/
theorem analyze_of_renumbered {s s' : Source} {f : Nat → Nat}
    (h : s'.records = s.records.map (Record.renumber f)) :
    (analyze s').map (·.diagnostics) =
      (analyze s).map fun a => a.diagnostics.map (Diagnostic.renumber f) := by
  have hlabels : ∀ name, (LabelTable.ofRecords s'.records).contains name =
      (LabelTable.ofRecords s.records).contains name := by
    intro name
    rw [h, LabelTable.contains_ofRecords_eq, LabelTable.contains_ofRecords_eq,
      (sameLabels_renumber _ _).any_defines]
  have hrest : inspectRecords (LabelTable.ofRecords s'.records) s'.records =
      (inspectRecords (LabelTable.ofRecords s.records) s.records).map
        (List.map (Diagnostic.renumber f)) := by
    rw [inspectRecords_congr hlabels, h, inspectRecords_renumber]
  have hdup : duplicates s'.records = (duplicates s.records).map (Diagnostic.renumber f) := by
    rw [h, duplicates_renumber]
  simp only [analyze, analyzeAfter, hrest, hdup, List.nil_append]
  cases inspectRecords (LabelTable.ofRecords s.records) s.records with
  | error e => rfl
  | ok ds => simp [Except.map]

theorem inspectRecords_gain_renumber {labels more : LabelTable} {label : List CodePoint}
    (hg : Gains labels more label) (f : Nat → Nat) {rs : List Record} {ds : List Diagnostic}
    (h : inspectRecords labels rs = .ok ds) :
    inspectRecords more (rs.map (Record.renumber f)) =
      .ok ((ds.filter (!asksFor label ·)).map (Diagnostic.renumber f)) := by
  rw [inspectRecords_renumber, inspectRecords_gain hg, h]
  rfl

theorem duplicates_insert {new : Record} {before after : List Record}
    (hnew : ∀ name, new.defines name = true → (before ++ after).any (·.defines name) = false) :
    duplicates (before ++ new :: after) = duplicates (before ++ after) := by
  rw [duplicates, repeatedLabels_insert .empty fun name hd => ⟨hnew name hd, rfl⟩, duplicates]

theorem duplicates_insert_renumber {new : Record} {before after : List Record} (f : Nat → Nat)
    (hnew : ∀ name, new.defines name = true → (before ++ after).any (·.defines name) = false) :
    duplicates (before.map (Record.renumber f) ++ new :: after.map (Record.renumber f)) =
      (duplicates (before ++ after)).map (Diagnostic.renumber f) := by
  rw [← duplicates_renumber, List.map_append]
  refine duplicates_insert fun name hd => ?_
  rw [← List.map_append, (sameLabels_renumber _ _).any_defines, hnew name hd]

/-- Putting in a record that defines a new label and has no fault of its own, while the lines of the
others change. -/
theorem analyze_insert {s s' : Source} {a : Analysis} {before after : List Record} {new : Record}
    {label : List CodePoint} {f : Nat → Nat} (ha : analyze s = .ok a) (hs : s.records = before ++ after)
    (hs' : s'.records = before.map (Record.renumber f) ++ new :: after.map (Record.renumber f))
    (hnew : ∀ name, new.defines name = (name == label))
    (hclean : ∀ labels, inspectRecord labels new = .ok [])
    (hfresh : a.labels.contains label = false) :
    ∃ a', analyze s' = .ok a' ∧ Gains a.labels a'.labels label ∧
      a'.diagnostics = (a.diagnostics.filter (!asksFor label ·)).map (Diagnostic.renumber f) := by
  obtain ⟨ds, hds, rfl⟩ := analyze_ok_iff.1 ha
  have hgain : Gains (LabelTable.ofRecords s.records) (LabelTable.ofRecords s'.records) label := by
    intro name
    simp only [LabelTable.contains_ofRecords_eq, hs, hs', List.any_append, List.any_cons, hnew,
      (sameLabels_renumber _ _).any_defines]
    rw [Bool.or_left_comm]
  have hdup : duplicates s'.records = (duplicates s.records).map (Diagnostic.renumber f) := by
    rw [hs', hs]
    refine duplicates_insert_renumber f fun name hd => ?_
    obtain rfl : name = label := by simpa [hnew] using hd
    rwa [← hs, ← LabelTable.contains_ofRecords_eq]
  have hrest : inspectRecords (LabelTable.ofRecords s'.records) s'.records =
      .ok ((ds.filter (!asksFor label ·)).map (Diagnostic.renumber f)) := by
    generalize LabelTable.ofRecords s'.records = more at hgain
    generalize LabelTable.ofRecords s.records = labels at hgain hds
    rw [hs, inspectRecords_append_ok] at hds
    obtain ⟨xs, ys, hx, hy, rfl⟩ := hds
    have hx' := inspectRecords_gain_renumber hgain f hx
    have hy' := inspectRecords_gain_renumber hgain f hy
    rw [hs', inspectRecords_append_ok]
    refine ⟨_, _, hx', inspectRecords_cons_ok.2 ⟨[], _, hclean more, hy', rfl⟩, ?_⟩
    rw [List.filter_append, List.map_append, List.nil_append]
  refine ⟨_, analyze_ok_iff.2 ⟨_, hrest, rfl⟩, hgain, ?_⟩
  simp only [hdup, List.filter_append, filter_duplicates, List.map_append]

theorem analyze_insert_unlabelled {s s' : Source} {a : Analysis} {before after : List Record}
    {new : Record} {f : Nat → Nat} (ha : analyze s = .ok a) (hs : s.records = before ++ after)
    (hs' : s'.records = before.map (Record.renumber f) ++ new :: after.map (Record.renumber f))
    (hnew : new.label = none) (hrec : ∀ labels, ∃ zs, inspectRecord labels new = .ok zs) :
    ∃ a', analyze s' = .ok a' ∧ (∀ name, a'.labels.contains name = a.labels.contains name) ∧
      ∀ d ∈ a.diagnostics, d.renumber f ∈ a'.diagnostics := by
  obtain ⟨ds, hds, rfl⟩ := analyze_ok_iff.1 ha
  have hdef : ∀ name, new.defines name = false := by simp [Record.defines, hnew]
  have hlabels : ∀ name, (LabelTable.ofRecords s'.records).contains name =
      (LabelTable.ofRecords s.records).contains name := by
    intro name
    simp only [LabelTable.contains_ofRecords_eq, hs, hs', List.any_append, List.any_cons, hdef,
      (sameLabels_renumber _ _).any_defines, Bool.false_or]
  have hdup : duplicates s'.records = (duplicates s.records).map (Diagnostic.renumber f) := by
    rw [hs', hs]
    exact duplicates_insert_renumber f fun name hd => by simp [hdef] at hd
  obtain ⟨zs, hz⟩ := hrec (LabelTable.ofRecords s'.records)
  rw [hs, inspectRecords_append_ok, ← hs] at hds
  obtain ⟨xs, ys, hx, hy, rfl⟩ := hds
  have hmoved : ∀ {rs : List Record} {os : List Diagnostic},
      inspectRecords (LabelTable.ofRecords s.records) rs = .ok os →
        inspectRecords (LabelTable.ofRecords s'.records) (rs.map (Record.renumber f)) =
          .ok (os.map (Diagnostic.renumber f)) := by
    intro rs os h
    rw [inspectRecords_congr hlabels, inspectRecords_renumber, h]
    rfl
  have hrest : inspectRecords (LabelTable.ofRecords s'.records) s'.records =
      .ok (xs.map (Diagnostic.renumber f) ++ (zs ++ ys.map (Diagnostic.renumber f))) := by
    nth_rewrite 2 [hs']
    exact inspectRecords_append_ok.2
      ⟨_, _, hmoved hx, inspectRecords_cons_ok.2 ⟨_, _, hz, hmoved hy, rfl⟩, rfl⟩
  refine ⟨_, analyze_ok_iff.2 ⟨_, hrest, rfl⟩, hlabels, fun d hd => ?_⟩
  simp only [List.mem_append] at hd ⊢
  rw [hdup]
  rcases hd with hd | hd | hd
  · exact Or.inl (List.mem_map_of_mem hd)
  · exact Or.inr (Or.inl (List.mem_map_of_mem hd))
  · exact Or.inr (Or.inr (Or.inr (List.mem_map_of_mem hd)))

end Analysis

end LittleMan
