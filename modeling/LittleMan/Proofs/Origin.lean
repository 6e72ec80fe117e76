import LittleMan.Proofs.Dependence

/-! Where diagnostics come from. Each belongs to one record and is on its line; a diagnostic of an
operand stands right after those of the mnemonic of its record. -/

namespace LittleMan

open Analysis

variable {labels : LabelTable} {r : Record} {d : Diagnostic} {ds : List Diagnostic}

theorem analyze_ok_iff {s : Source} {a : Analysis} :
    analyze s = .ok a ↔
      ∃ ds, inspectRecords (LabelTable.ofRecords s.records) s.records = .ok ds ∧
        a = ⟨duplicates s.records ++ ds, LabelTable.ofRecords s.records, s.records⟩ := by
  simp only [analyze, analyzeAfter, List.nil_append]
  cases inspectRecords (LabelTable.ofRecords s.records) s.records with
  | error e => simp [Except.map]
  | ok ds => simp [Except.map, eq_comm]

theorem labels_eq_of_analyze {s : Source} {a : Analysis} (ha : analyze s = .ok a) :
    a.labels = LabelTable.ofRecords s.records := by
  obtain ⟨ds, -, rfl⟩ := analyze_ok_iff.1 ha
  rfl

theorem kind_of_mem_duplicates {rs : List Record} (h : d ∈ duplicates rs) :
    d.kind = .duplicateLabel := by
  obtain ⟨p, -, rfl⟩ := List.mem_map.1 h
  rfl

theorem kind_of_mem_inspectMnemonic (h : d ∈ inspectMnemonic r) : d.kind = .invalidInstruction := by
  rw [inspectMnemonic] at h
  split at h
  · simp at h
  · obtain rfl := List.mem_singleton.1 h
    rfl

theorem filter_duplicates_eq_nil {p : Kind → Bool} (hp : p .duplicateLabel = false)
    (rs : List Record) : (duplicates rs).filter (fun d => p d.kind) = [] := by
  refine List.filter_eq_nil_iff.2 fun d hd => ?_
  simp [kind_of_mem_duplicates hd, hp]

theorem filter_inspectMnemonic_eq_nil {p : Kind → Bool} (hp : p .invalidInstruction = false)
    (r : Record) : (inspectMnemonic r).filter (fun d => p d.kind) = [] := by
  refine List.filter_eq_nil_iff.2 fun d hd => ?_
  simp [kind_of_mem_inspectMnemonic hd, hp]

theorem line_of_mem_inspectMnemonic (h : d ∈ inspectMnemonic r) : d.span.line = r.line := by
  rw [inspectMnemonic] at h
  split at h
  · simp at h
  · obtain rfl := List.mem_singleton.1 h
    rfl

theorem Analysis.Finding.line_eq (h : Finding labels r d) : d.span.line = r.line := by
  cases h <;> rfl

theorem inspectRecord_ok_iff : inspectRecord labels r = .ok ds ↔
    ∃ as, inspectArgument labels r = .ok as ∧ ds = inspectMnemonic r ++ as := by
  rw [inspectRecord]
  cases inspectArgument labels r with
  | error e => simp [Except.map]
  | ok as => simp [Except.map, eq_comm]

theorem inspectRecord_error_iff {e : Fault} :
    inspectRecord labels r = .error e ↔ inspectArgument labels r = .error e := by
  rw [inspectRecord]
  cases inspectArgument labels r <;> simp [Except.map]

theorem inspectRecord_ok (h : inspectRecord labels r = .ok ds) :
    ds = inspectMnemonic r ∨ ∃ d, ds = inspectMnemonic r ++ [d] ∧ Finding labels r d := by
  obtain ⟨as, ha, rfl⟩ := inspectRecord_ok_iff.1 h
  rcases inspectArgument_ok ha with rfl | ⟨d, rfl, hf⟩
  · exact Or.inl (List.append_nil _)
  · exact Or.inr ⟨d, rfl, hf⟩

theorem line_of_mem_inspectRecord (h : inspectRecord labels r = .ok ds) (hd : d ∈ ds) :
    d.span.line = r.line := by
  rcases inspectRecord_ok h with rfl | ⟨f, rfl, hf⟩
  · exact line_of_mem_inspectMnemonic hd
  · rcases List.mem_append.1 hd with hd | hd
    · exact line_of_mem_inspectMnemonic hd
    · obtain rfl := List.mem_singleton.1 hd
      exact hf.line_eq

theorem exists_record_of_mem {rs : List Record} (h : inspectRecords labels rs = .ok ds)
    (hd : d ∈ ds) :
    ∃ before r after xs zs ys, rs = before ++ r :: after ∧ inspectRecords labels before = .ok xs ∧
      inspectRecord labels r = .ok zs ∧ inspectRecords labels after = .ok ys ∧
      ds = xs ++ (zs ++ ys) ∧ d ∈ zs := by
  induction rs generalizing ds with
  | nil =>
    obtain rfl := Except.ok.inj h
    simp at hd
  | cons r rs ih =>
    obtain ⟨zs, ys, hz, hy, rfl⟩ := inspectRecords_cons_ok.1 h
    rcases List.mem_append.1 hd with hd | hd
    · exact ⟨[], r, rs, [], zs, ys, rfl, rfl, hz, hy, rfl, hd⟩
    · obtain ⟨before, r', after, xs, zs', ys', rfl, hx, hz', hy', rfl, hm⟩ := ih hy hd
      refine ⟨r :: before, r', after, zs ++ xs, zs', ys', rfl, ?_, hz', hy', ?_, hm⟩
      · exact inspectRecords_cons_ok.2 ⟨zs, xs, hz, hx, rfl⟩
      · rw [List.append_assoc]

theorem exists_line_of_mem {rs : List Record} (h : inspectRecords labels rs = .ok ds)
    (hd : d ∈ ds) : ∃ r ∈ rs, d.span.line = r.line := by
  obtain ⟨before, r, after, xs, zs, ys, rfl, -, hz, -, rfl, hm⟩ := exists_record_of_mem h hd
  exact ⟨r, by simp, line_of_mem_inspectRecord hz hm⟩

/-- A diagnostic of an operand, its record, and what is reported before and after it. -/
theorem exists_origin {s : Source} {a : Analysis} (ha : analyze s = .ok a)
    (hd : d ∈ a.diagnostics) (hdup : d.kind ≠ .duplicateLabel)
    (hinv : d.kind ≠ .invalidInstruction) :
    ∃ before r after xs ys, s.records = before ++ r :: after ∧ Finding a.labels r d ∧
      inspectRecords a.labels before = .ok xs ∧ inspectRecords a.labels after = .ok ys ∧
      a.diagnostics = duplicates s.records ++ (xs ++ (inspectMnemonic r ++ d :: ys)) := by
  obtain ⟨ds, hds, rfl⟩ := analyze_ok_iff.1 ha
  have hm : d ∈ ds := by
    rcases List.mem_append.1 hd with hd | hd
    · exact absurd (kind_of_mem_duplicates hd) hdup
    · exact hd
  obtain ⟨before, r, after, xs, zs, ys, hrs, hx, hz, hy, rfl, hmem⟩ := exists_record_of_mem hds hm
  rcases inspectRecord_ok hz with rfl | ⟨f, rfl, hf⟩
  · exact absurd (kind_of_mem_inspectMnemonic hmem) hinv
  · rcases List.mem_append.1 hmem with hmem | hmem
    · exact absurd (kind_of_mem_inspectMnemonic hmem) hinv
    · obtain rfl := List.mem_singleton.1 hmem
      refine ⟨before, r, after, xs, ys, hrs, hf, hx, hy, ?_⟩
      simp only [List.append_assoc, List.singleton_append]

theorem inspectRecords_error {rs : List Record} {e : Fault}
    (h : inspectRecords labels rs = .error e) : e = .tooManyDigits := by
  induction rs with
  | nil => cases h
  | cons r rs ih =>
    rcases inspectRecords_cons_error.1 h with hr | ⟨xs, -, hrest⟩
    · exact inspectArgument_error (inspectRecord_error_iff.1 hr)
    · exact ih hrest

theorem analyze_error {s : Source} {e : Fault} (h : analyze s = .error e) : e = .tooManyDigits := by
  simp only [analyze, analyzeAfter] at h
  cases hr : inspectRecords (LabelTable.ofRecords s.records) s.records with
  | error e' =>
    obtain rfl : e' = e := by simpa [hr, Except.map] using h
    exact inspectRecords_error hr
  | ok ds => simp [hr, Except.map] at h

end LittleMan
