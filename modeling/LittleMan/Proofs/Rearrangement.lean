import LittleMan.Proofs.Labels
import LittleMan.Proofs.LineByLine
import Mathlib.Data.List.FinRange

/-! Lines put into another order. Labels count wherever they are defined, so what is reported on a line
goes along with it; only which definition of a label is the first depends on the order. -/

namespace LittleMan

/-- Whether a line is read as a definition of the label. -/
def definesLabel (label line : List CodePoint) : Bool :=
  (Statement.read? line).any fun st => st.label.any (·.text == label)

theorem countP_readRecords (label : List CodePoint) (n : Nat) (lines : List (List CodePoint)) :
    (readRecords n lines).countP (·.defines label) = lines.countP (definesLabel label) := by
  induction lines generalizing n with
  | nil => rfl
  | cons line lines ih =>
    cases hr : Statement.read? line with
    | none => simp [readRecords, definesLabel, hr, ih]
    | some st =>
      have hd : definesLabel label line = Record.defines label { st with line := n } := by
        simp [definesLabel, Record.defines, hr]
      simp only [readRecords, hr, List.countP_cons, ih, hd]

theorem contains_ofRecords_readRecords (label : List CodePoint) (n : Nat) (lines : List (List CodePoint)) :
    (LabelTable.ofRecords (readRecords n lines)).contains label =
      decide (0 < lines.countP (definesLabel label)) := by
  rw [LabelTable.contains_ofRecords_eq, ← countP_readRecords label n lines, Bool.eq_iff_iff]
  simp [List.countP_pos_iff]

/-- All definitions of a label but the first repeat it, and all of them if it was known before. -/
theorem countP_repeatedLabels (label : List CodePoint) (known : LabelTable) (rs : List Record) :
    (repeatedLabels known rs).countP (fun p => p.2.text == label) =
      rs.countP (·.defines label) - (if known.contains label then 0 else 1) := by
  induction rs generalizing known with
  | nil => simp [repeatedLabels]
  | cons r rs ih =>
    have hlater := ih (known.addRecord r)
    rw [LabelTable.contains_addRecord] at hlater
    cases hl : r.label with
    | none =>
      have hd : r.defines label = false := by simp [Record.defines, hl]
      rw [hd, Bool.or_false] at hlater
      simp [repeatedLabels, hl, hd, hlater]
    | some w =>
      cases hw : w.text == label with
      | false =>
        have hd : r.defines label = false := by simpa [Record.defines, hl] using hw
        rw [hd, Bool.or_false] at hlater
        simp only [repeatedLabels, hl]
        split <;> simp [hd, hw, hlater]
      | true =>
        have hd : r.defines label = true := by simpa [Record.defines, hl] using hw
        rw [hd, Bool.or_true, if_pos rfl] at hlater
        obtain rfl : w.text = label := by simpa using hw
        simp only [repeatedLabels, hl, List.countP_cons, hd, if_true]
        cases known.contains w.text <;> simp [hlater]

namespace Analysis

/-- How often a label is reported as repeated. -/
def countDuplicates (a : Analysis) (label : List CodePoint) : Nat :=
  a.diagnostics.countP fun d => d.kind = .duplicateLabel && d.token == label

theorem countDuplicates_eq {s : Source} {a : Analysis} (ha : analyze s = .ok a)
    (label : List CodePoint) :
    a.countDuplicates label = s.lines.countP (definesLabel label) - 1 := by
  obtain ⟨ds, hds, rfl⟩ := analyze_ok_iff.1 ha
  have hnone : ds.countP (fun d => d.kind = .duplicateLabel && d.token == label) = 0 := by
    refine List.countP_eq_zero.2 fun d hd => ?_
    obtain ⟨before, r, after, xs, zs, ys, -, -, hz, -, -, hm⟩ := exists_record_of_mem hds hd
    simp [kind_ne_of_mem_inspectRecord hz hm]
  have hrepeated := countP_repeatedLabels label .empty s.records
  rw [LabelTable.contains_empty, if_neg Bool.false_ne_true, Source.records,
    countP_readRecords] at hrepeated
  rw [countDuplicates, List.countP_append, hnone, Nat.add_zero, duplicates, List.countP_map,
    ← hrepeated]
  rfl

end Analysis

/-- The lines in another order: the line at `i` goes to `order i`. -/
def rearrange (lines : List (List CodePoint)) (order : Equiv.Perm (Fin lines.length)) :
    List (List CodePoint) :=
  List.ofFn fun i => lines.get (order.symm i)

section

variable {lines : List (List CodePoint)} {order : Equiv.Perm (Fin lines.length)}

theorem rearrange_perm (lines : List (List CodePoint)) (order : Equiv.Perm (Fin lines.length)) :
    (rearrange lines order).Perm lines := by
  have hperm := Equiv.Perm.ofFn_comp_perm order.symm lines.get
  rw [List.ofFn_get] at hperm
  exact hperm

theorem getElem?_rearrange (i : Fin lines.length) :
    (rearrange lines order)[(order i : Nat)]? = some (lines.get i) := by
  simp [rearrange]

/-- The order of the lines does not matter for what is reported on each of them, nor for how often a
label is reported as repeated. -/
theorem diagnostics_of_rearranged {s s' : Source} {a : Analysis} (hne : lines ≠ [])
    (hbreak : ∀ line ∈ lines, .scalar '\r' ∉ line ∧ .scalar '\n' ∉ line) (hs : s.text = joinLines lines)
    (hs' : s'.text = joinLines (rearrange lines order)) (ha : analyze s = .ok a) :
    ∃ a', analyze s' = .ok a' ∧
      (∀ i : Fin lines.length, a'.findingsAt (order i) =
        (a.findingsAt i).map (Diagnostic.renumber fun _ => order i)) ∧
      ∀ label, a'.countDuplicates label = a.countDuplicates label := by
  have hperm := rearrange_perm lines order
  have hlines : s.lines = lines := by rw [s.lines_eq, hs, linesOf_joinLines hne hbreak]
  have hlines' : s'.lines = rearrange lines order := by
    have hne' : rearrange lines order ≠ [] := fun he => hne (List.nil_perm.1 (he ▸ hperm))
    rw [s'.lines_eq, hs', linesOf_joinLines hne' fun line hl => hbreak line (hperm.mem_iff.1 hl)]
  have hlabels : ∀ k, (LabelTable.ofRecords s'.records).contains k = a.labels.contains k := by
    intro k
    rw [labels_eq_of_analyze ha, Source.records, Source.records, contains_ofRecords_readRecords,
      contains_ofRecords_readRecords, hlines, hlines', hperm.countP_eq]
  have hjudged : ∀ i : Fin lines.length,
      Analysis.inspectLine a.labels i (lines.get i) = .ok (a.findingsAt i) := by
    intro i
    refine inspectLine_eq_findingsAt ha ?_
    rw [hlines]
    exact List.getElem?_eq_getElem i.isLt
  obtain ⟨ds, hds⟩ : ∃ ds, Analysis.inspectRecords (LabelTable.ofRecords s'.records)
      s'.records = .ok ds := by
    have heach : ∀ line ∈ s'.lines, ∃ m xs,
        Analysis.inspectLine (LabelTable.ofRecords s'.records) m line = .ok xs := by
      intro line hl
      rw [hlines', hperm.mem_iff] at hl
      obtain ⟨i, rfl⟩ := List.mem_iff_get.1 hl
      exact ⟨i, _, (Analysis.inspectLine_congr hlabels i _).trans (hjudged i)⟩
    exact Analysis.exists_inspectRecords heach 0
  have ha' := analyze_ok_iff.2 ⟨ds, hds, rfl⟩
  refine ⟨_, ha', fun i => ?_, fun label => ?_⟩
  · have hthere : s'.lines[(order i : Nat)]? = some (lines.get i) := by
      rw [hlines', getElem?_rearrange]
    have hmoved := inspectLine_eq_findingsAt ha' hthere
    rw [Analysis.inspectLine_congr hlabels, Analysis.inspectLine_renumber _ _ i, hjudged] at hmoved
    exact (Except.ok.inj hmoved).symm
  · rw [Analysis.countDuplicates_eq ha', Analysis.countDuplicates_eq ha, hlines, hlines',
      hperm.countP_eq]

end

/-- A label that is used before its definitions, of which there are two, and a label without one. -/
def usedBeforeDefined : List (List CodePoint) :=
  ["LDA X", "X DAT 5 ;", "X BRA Y"].map Text.toList

def lastLineFirst : Equiv.Perm (Fin usedBeforeDefined.length) :=
  Equiv.swap ⟨0, by decide⟩ ⟨2, by decide⟩

theorem diagnostics_of_lastLineFirst :
    usedBeforeDefined ≠ [] ∧ (∀ line ∈ usedBeforeDefined, .scalar '\r' ∉ line ∧ .scalar '\n' ∉ line) ∧
      ∃ a a', analyze (Source.named none (joinLines usedBeforeDefined)) = .ok a ∧
        analyze (Source.named none (joinLines (rearrange usedBeforeDefined lastLineFirst))) =
          .ok a' ∧
        (∀ i : Fin usedBeforeDefined.length, a'.findingsAt (lastLineFirst i) =
          (a.findingsAt i).map (Diagnostic.renumber fun _ => lastLineFirst i)) ∧
        ∀ label, a'.countDuplicates label = a.countDuplicates label := by
  have hne : usedBeforeDefined ≠ [] := by decide
  have hbreak : ∀ line ∈ usedBeforeDefined, .scalar '\r' ∉ line ∧ .scalar '\n' ∉ line := by decide
  obtain ⟨a, ha⟩ : ∃ a, analyze (Source.named none (joinLines usedBeforeDefined)) = .ok a :=
    ⟨_, rfl⟩
  have htext : (Source.named none (joinLines (rearrange usedBeforeDefined lastLineFirst))).text =
      joinLines (rearrange usedBeforeDefined lastLineFirst) := rfl
  obtain ⟨a', ha', hfound, hcount⟩ := diagnostics_of_rearranged hne hbreak rfl htext ha
  exact ⟨hne, hbreak, a, a', ha, ha', hfound, hcount⟩

end LittleMan
