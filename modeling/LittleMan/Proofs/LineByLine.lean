import LittleMan.Proofs.Origin

/-! The analysis of a text line by line. With the labels given, what is reported on a line follows from
the text of that line, and the number of the line goes into nothing but the place of the report. -/

namespace LittleMan

def Diagnostic.isOnLine (n : Nat) (d : Diagnostic) : Bool := d.span.line = n

namespace Analysis

variable {labels : LabelTable} {n : Nat} {line : List CodePoint} {ds : List Diagnostic}

/-- What is wrong with one line; a line that says nothing has no fault. -/
def inspectLine (labels : LabelTable) (n : Nat) (line : List CodePoint) : Except Fault (List Diagnostic) :=
  match Statement.read? line with
  | some st => inspectRecord labels { st with line := n }
  | none => .ok []

theorem inspectLine_renumber (labels : LabelTable) (m n : Nat) (line : List CodePoint) :
    inspectLine labels m line =
      (inspectLine labels n line).map (List.map (Diagnostic.renumber fun _ => m)) := by
  cases hr : Statement.read? line with
  | none => simp [inspectLine, hr, Except.map]
  | some st =>
    have hmoved := inspectRecord_renumber (fun _ => m) labels { st with line := n }
    simp only [inspectLine, hr]
    exact hmoved

theorem inspectLine_congr {labels' : LabelTable}
    (h : ∀ k, labels'.contains k = labels.contains k) (n : Nat) (line : List CodePoint) :
    inspectLine labels' n line = inspectLine labels n line := by
  cases hr : Statement.read? line with
  | none => simp only [inspectLine, hr]
  | some st => simp only [inspectLine, hr, inspectRecord_congr h]

theorem kind_ne_of_mem_inspectRecord {r : Record} {d : Diagnostic}
    (h : inspectRecord labels r = .ok ds) (hd : d ∈ ds) : d.kind ≠ .duplicateLabel := by
  rcases inspectRecord_ok h with rfl | ⟨f, rfl, hf⟩
  · simp [kind_of_mem_inspectMnemonic hd]
  · rcases List.mem_append.1 hd with hd | hd
    · simp [kind_of_mem_inspectMnemonic hd]
    · obtain rfl := List.mem_singleton.1 hd
      cases hf <;> exact Kind.noConfusion

theorem mem_inspectLine {d : Diagnostic} (h : inspectLine labels n line = .ok ds) (hd : d ∈ ds) :
    d.span.line = n ∧ d.kind ≠ .duplicateLabel := by
  cases hr : Statement.read? line with
  | none =>
    obtain rfl : [] = ds := by simpa [inspectLine, hr] using h
    cases hd
  | some st =>
    have hrecord : inspectRecord labels { st with line := n } = .ok ds := by
      simpa only [inspectLine, hr] using h
    exact ⟨line_of_mem_inspectRecord hrecord hd, kind_ne_of_mem_inspectRecord hrecord hd⟩

theorem inspectRecords_cons_line_ok {lines : List (List CodePoint)} :
    inspectRecords labels (readRecords n (line :: lines)) = .ok ds ↔
      ∃ xs ys, inspectLine labels n line = .ok xs ∧
        inspectRecords labels (readRecords (n + 1) lines) = .ok ys ∧ ds = xs ++ ys := by
  cases hr : Statement.read? line with
  | none => simp [readRecords, inspectLine, hr]
  | some st => simp only [readRecords, inspectLine, hr, inspectRecords_cons_ok]

theorem exists_inspectRecords {lines : List (List CodePoint)}
    (h : ∀ line ∈ lines, ∃ m xs, inspectLine labels m line = .ok xs) (n : Nat) :
    ∃ ds, inspectRecords labels (readRecords n lines) = .ok ds := by
  induction lines generalizing n with
  | nil => exact ⟨[], rfl⟩
  | cons line lines ih =>
    obtain ⟨m, xs, hx⟩ := h line List.mem_cons_self
    obtain ⟨ys, hy⟩ := ih (fun l hl => h l (List.mem_cons_of_mem _ hl)) (n + 1)
    have hhere := inspectLine_renumber labels n m line
    rw [hx] at hhere
    exact ⟨_, inspectRecords_cons_line_ok.2 ⟨_, ys, hhere, hy, rfl⟩⟩

/-- Of all that is reported, the part on one line is what that line is reported for. -/
theorem inspectLine_eq_filter {lines : List (List CodePoint)} {i : Nat}
    (h : inspectRecords labels (readRecords n lines) = .ok ds) (hi : lines[i]? = some line) :
    inspectLine labels (n + i) line = .ok (ds.filter (Diagnostic.isOnLine (n + i))) := by
  induction lines generalizing n i ds with
  | nil => simp at hi
  | cons head lines ih =>
    obtain ⟨xs, ys, hx, hy, rfl⟩ := inspectRecords_cons_line_ok.1 h
    have hhere : ∀ d ∈ xs, d.span.line = n := fun d hd => (mem_inspectLine hx hd).1
    cases i with
    | zero =>
      obtain rfl : head = line := by simpa using hi
      have hall : xs.filter (Diagnostic.isOnLine n) = xs := by
        refine List.filter_eq_self.2 fun d hd => ?_
        simp [Diagnostic.isOnLine, hhere d hd]
      have hnone : ys.filter (Diagnostic.isOnLine n) = [] := by
        refine List.filter_eq_nil_iff.2 fun d hd => ?_
        obtain ⟨r, hr, hl⟩ := exists_line_of_mem hy hd
        have hle := le_line_of_mem_readRecords hr
        have hne : d.span.line ≠ n := by omega
        simpa [Diagnostic.isOnLine] using hne
      rw [Nat.add_zero, List.filter_append, hall, hnone, List.append_nil]
      exact hx
    | succ i =>
      have hnone : xs.filter (Diagnostic.isOnLine (n + (i + 1))) = [] := by
        refine List.filter_eq_nil_iff.2 fun d hd => ?_
        have hline := hhere d hd
        have hne : d.span.line ≠ (n + (i + 1) : Nat) := by omega
        simpa [Diagnostic.isOnLine] using hne
      have hrest := ih hy (by simpa using hi)
      have hn : n + 1 + i = n + (i + 1) := by omega
      rw [hn] at hrest
      rw [List.filter_append, hnone, List.nil_append]
      exact hrest

end Analysis

/-- What the analysis reports on a line, repeated labels apart. -/
def Analysis.findingsAt (a : Analysis) (n : Nat) : List Diagnostic :=
  a.diagnostics.filter fun d => d.kind ≠ .duplicateLabel && d.isOnLine n

theorem inspectLine_eq_findingsAt {s : Source} {a : Analysis} {i : Nat} {line : List CodePoint}
    (ha : analyze s = .ok a) (hi : s.lines[i]? = some line) :
    Analysis.inspectLine a.labels i line = .ok (a.findingsAt i) := by
  obtain ⟨ds, hds, rfl⟩ := analyze_ok_iff.1 ha
  have hline := Analysis.inspectLine_eq_filter hds hi
  rw [Nat.zero_add] at hline
  have hdup : (Analysis.duplicates s.records).filter
      (fun d => d.kind ≠ .duplicateLabel && d.isOnLine i) = [] := by
    refine List.filter_eq_nil_iff.2 fun d hd => ?_
    simp [kind_of_mem_duplicates hd]
  have hkind : ds.filter (fun d => d.kind ≠ .duplicateLabel && d.isOnLine i) =
      ds.filter (Diagnostic.isOnLine i) := by
    refine List.filter_congr fun d hd => ?_
    cases hl : d.isOnLine i with
    | false => rw [Bool.and_false]
    | true =>
      have hmem : d ∈ ds.filter (Diagnostic.isOnLine i) := List.mem_filter.2 ⟨hd, hl⟩
      simp [(Analysis.mem_inspectLine hline hmem).2]
  rw [Analysis.findingsAt, List.filter_append, hdup, hkind, List.nil_append]
  exact hline

end LittleMan
