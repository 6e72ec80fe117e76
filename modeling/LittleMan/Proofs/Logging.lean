import LittleMan.Log
import LittleMan.Proofs.Origin

/-! A log and the list of diagnostics. An analysis into a log writes what the analysis of the text finds,
in the same order, and fails where that fails. -/

namespace LittleMan

namespace Log

variable {σ : Type} (hear : σ → Diagnostic → σ)

theorem writeAll_eq (log : Log σ) (ds : List Diagnostic) :
    log.writeAll hear ds =
      { diagnostics := log.diagnostics ++ ds, heard := ds.foldl hear log.heard } := by
  induction ds generalizing log with
  | nil => simp [writeAll]
  | cons d ds ih =>
    have hrest := ih (log.write hear d)
    simpa [writeAll, write] using hrest

theorem writeAll_append (log : Log σ) (xs ys : List Diagnostic) :
    log.writeAll hear (xs ++ ys) = (log.writeAll hear xs).writeAll hear ys :=
  List.foldl_append

theorem foldl_enterLabel (labels : LabelTable) (log : Log σ) (rs : List Record) :
    rs.foldl (enterLabel hear) (labels, log) =
      (rs.foldl LabelTable.addRecord labels,
        log.writeAll hear ((repeatedLabels labels rs).map fun (line, w) =>
          report .duplicateLabel ("Duplicate label: " ++ Text.ofList w.text) line w)) := by
  induction rs generalizing labels log with
  | nil => rfl
  | cons r rs ih =>
    rw [List.foldl_cons, List.foldl_cons]
    cases hl : r.label with
    | none => simp only [enterLabel, LabelTable.addRecord, repeatedLabels, hl, ih]
    | some w =>
      by_cases hk : labels.contains w.text = true
      · simp only [enterLabel, LabelTable.addRecord, repeatedLabels, hl, hk, if_true, ih]
        rfl
      · simp only [enterLabel, LabelTable.addRecord, repeatedLabels, hl, hk, Bool.false_eq_true,
          if_false, ih]

theorem enterLabels_eq (log : Log σ) (rs : List Record) :
    log.enterLabels hear rs =
      (LabelTable.ofRecords rs, log.writeAll hear (Analysis.duplicates rs)) :=
  foldl_enterLabel hear .empty log rs

theorem inspectRecord_of_ok {labels : LabelTable} {r : Record} {ds : List Diagnostic} (log : Log σ)
    (h : Analysis.inspectRecord labels r = .ok ds) :
    inspectRecord hear labels log r = (log.writeAll hear ds, .ok ()) := by
  obtain ⟨as, ha, rfl⟩ := inspectRecord_ok_iff.1 h
  simp only [inspectRecord, ha, writeAll_append]

theorem inspectRecord_of_error {labels : LabelTable} {r : Record} {e : Fault} (log : Log σ)
    (h : Analysis.inspectRecord labels r = .error e) :
    (inspectRecord hear labels log r).2 = .error e := by
  rw [inspectRecord_error_iff] at h
  simp only [inspectRecord, h]

theorem inspectRecords_of_ok {labels : LabelTable} {rs : List Record} {ds : List Diagnostic}
    (log : Log σ) (h : Analysis.inspectRecords labels rs = .ok ds) :
    inspectRecords hear labels log rs = (log.writeAll hear ds, .ok ()) := by
  induction rs generalizing log ds with
  | nil =>
    obtain rfl := Except.ok.inj h
    rfl
  | cons r rs ih =>
    obtain ⟨xs, ys, hx, hy, rfl⟩ := Analysis.inspectRecords_cons_ok.1 h
    have hrest := ih (log.writeAll hear xs) hy
    simp only [inspectRecords, inspectRecord_of_ok hear log hx, hrest, writeAll_append]

theorem inspectRecords_of_error {labels : LabelTable} {rs : List Record} {e : Fault} (log : Log σ)
    (h : Analysis.inspectRecords labels rs = .error e) :
    (inspectRecords hear labels log rs).2 = .error e := by
  induction rs generalizing log with
  | nil => cases h
  | cons r rs ih =>
    rcases Analysis.inspectRecords_cons_error.1 h with hr | ⟨xs, hr, hrest⟩
    · have hfail := inspectRecord_of_error hear log hr
      rw [inspectRecords]
      split
      · next heq => simp [heq] at hfail
      · next heq => simpa [heq] using hfail
    · have hlater := ih (log.writeAll hear xs) hrest
      simpa only [inspectRecords, inspectRecord_of_ok hear log hr] using hlater

/-- An analysis into a log ends like the analysis after the diagnostics that are written there. -/
theorem analyze_snd (log : Log σ) (s : Source) :
    (analyze hear log s).2 = analyzeAfter log.diagnostics s := by
  simp only [analyze, analyzeAfter, enterLabels_eq]
  cases h : Analysis.inspectRecords (LabelTable.ofRecords s.records) s.records with
  | error e =>
    have hfail := inspectRecords_of_error hear (log.writeAll hear (Analysis.duplicates s.records)) h
    split
    · next heq => simp [heq] at hfail
    · next heq => simpa [heq, Except.map] using hfail
  | ok ds =>
    simp only [inspectRecords_of_ok hear _ h, writeAll_eq]
    rfl

/-- What an analysis finds is written into the log and heard, all of it and in its order. -/
theorem analyze_of_ok {s : Source} {a : Analysis} (log : Log σ) (ha : LittleMan.analyze s = .ok a) :
    (analyze hear log s).1 = log.writeAll hear a.diagnostics := by
  obtain ⟨ds, hds, rfl⟩ := analyze_ok_iff.1 ha
  simp only [analyze, enterLabels_eq, inspectRecords_of_ok hear _ hds, writeAll_append]

end Log

end LittleMan
