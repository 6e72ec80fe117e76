import LittleMan.Proofs.Findings
import LittleMan.Proofs.Grammar
import LittleMan.Proofs.Insertion

/-! The fix of an undefined label. It puts in a line that defines the label, unless the name is that of
a mnemonic: then the line is read as an instruction, and the label stays undefined. -/

namespace LittleMan

open Analysis QuickFix

/-- A label in the code, before the data. -/
def codeLine (label : List CodePoint) : List CodePoint := label ++ .scalar '\t' :: Mnemonic.hlt.text

/-- A label of a mailbox that holds zero. -/
def dataLine (label : List CodePoint) : List CodePoint :=
  label ++ .scalar '\t' :: (Mnemonic.dat.text ++ [.scalar ' ', .scalar '0'])

/-- A reference to a label that the analysis does not know. -/
def Diagnostic.isUndefined (d : Diagnostic) : Prop :=
  d.kind = .undefinedLabel ∨ d.kind = .undefinedLabelReference

theorem not_mem_of_isIdentifier {name : List CodePoint} (h : isIdentifier name = true) {c : CodePoint}
    (hc : isWord c = false) : c ∉ name := by
  intro hm
  simp [all_isWord_of_isIdentifier h c hm] at hc

theorem read?_definition {label tail : List CodePoint} {m : Word} {o : Option Word}
    (hid : isIdentifier label = true) (hm : Mnemonic.ofText? label = none) (ht : .scalar ';' ∉ tail)
    (hi : Statement.instruction? label.length (.scalar '\t' :: tail) = some (m, o)) :
    Statement.read? (label ++ .scalar '\t' :: tail) = some ⟨some ⟨0, label⟩, m, o⟩ := by
  have hsemi : .scalar ';' ∉ label ++ .scalar '\t' :: tail := by
    simp [ht, not_mem_of_isIdentifier hid (show isWord (.scalar ';') = false by decide)]
  have hnone : IsComment [] := by simp [IsComment]
  have hr := Statement.read?_of_labelled hsemi hnone (Statement.labelled?_eq_some hid hm rfl hi)
  rwa [List.append_nil] at hr

theorem read?_codeLine {label : List CodePoint} (hid : isIdentifier label = true)
    (hm : Mnemonic.ofText? label = none) :
    Statement.read? (codeLine label) =
      some ⟨some ⟨0, label⟩, ⟨label.length + 1, Mnemonic.hlt.text⟩, none⟩ :=
  read?_definition hid hm (by decide) rfl

theorem read?_dataLine {label : List CodePoint} (hid : isIdentifier label = true)
    (hm : Mnemonic.ofText? label = none) :
    Statement.read? (dataLine label) =
      some ⟨some ⟨0, label⟩, ⟨label.length + 1, Mnemonic.dat.text⟩,
        some ⟨label.length + 5, [.scalar '0']⟩⟩ :=
  read?_definition hid hm (by decide) rfl

/-- The name of a mnemonic makes the line an instruction, with the word after it as operand. -/
theorem read?_codeLine_mnemonic (m : Mnemonic) :
    Statement.read? (codeLine m.text) =
      some ⟨none, ⟨0, m.text⟩, some ⟨4, Mnemonic.hlt.text⟩⟩ := by
  cases m <;> rfl

theorem read?_dataLine_mnemonic (m : Mnemonic) :
    Statement.read? (dataLine m.text) =
      some ⟨none, ⟨0, m.text⟩, some ⟨4, Mnemonic.dat.text⟩⟩ := by
  cases m <;> rfl

theorem inspectRecord_word (labels : LabelTable) (r : Record) {w : Word} (ho : r.operand = some w)
    (ha : addressing w.text = .direct) : ∃ ds, inspectRecord labels r = .ok ds := by
  have harg : ∃ as, inspectArgument labels r = .ok as := by
    rw [inspectArgument_eq]
    cases r.ignoresOperand with
    | true => exact ⟨_, rfl⟩
    | false =>
      simp only [ho, Bool.false_eq_true, if_false]
      cases r.isMnemonic .dat with
      | true =>
        simp only [if_true]
        rw [inspectData_label (by simp [ha]) (by simp [ha])]
        exact ⟨_, rfl⟩
      | false =>
        simp only [Bool.false_eq_true, if_false]
        rw [inspectOperand_direct ha]
        exact ⟨_, rfl⟩
  obtain ⟨as, has⟩ := harg
  exact ⟨_, by rw [inspectRecord, has]; rfl⟩

theorem createLabel_eq_none {s : Source} {d : Diagnostic} {labels : LabelTable}
    (hid : isIdentifier d.token = false) : createLabel s s.records labels d = none := by
  simp only [createLabel, hid, Bool.not_false, Bool.or_true, if_true]

theorem createLabel_eq {s : Source} {d : Diagnostic} {labels : LabelTable}
    (hc : labels.contains d.token = false) (hid : isIdentifier d.token = true) :
    createLabel s s.records labels d =
      if isBranchLine s.records d.span.line then
        some ("Create code label '" ++ Text.ofList d.token ++ "'",
          match s.records.find? (·.isMnemonic .dat) with
          | some r => Edit.insert ⟨r.line, 0⟩ (codeLine d.token ++ [.scalar '\n'] ++ [.scalar '\n'])
          | none => newLastLine s (codeLine d.token ++ [.scalar '\n']))
      else
        some ("Create data label '" ++ Text.ofList d.token ++ "'",
          newLastLine s (dataLine d.token)) := by
  simp only [createLabel, hc, hid, Bool.not_true, Bool.or_self, Bool.false_eq_true, if_false]
  cases hf : s.records.find? (·.isMnemonic .dat) with
  | some r =>
    simp only [codeLine, List.append_assoc, List.cons_append]
    rfl
  | none =>
    simp only [codeLine, List.append_assoc, List.cons_append]
    rfl

theorem readRecords_of_empty {lines : List (List CodePoint)} (h : ∀ line ∈ lines, line = []) (n : Nat) :
    readRecords n lines = [] := by
  induction lines generalizing n with
  | nil => rfl
  | cons line lines ih =>
    obtain rfl := h line List.mem_cons_self
    exact ih (fun l hl => h l (List.mem_cons_of_mem _ hl)) (n + 1)

theorem linesOf_codeLine {label : List CodePoint} (hid : isIdentifier label = true) :
    linesOf (codeLine label ++ [.scalar '\n']) = [codeLine label, []] := by
  have hr : .scalar '\r' ∉ codeLine label := by
    simp [codeLine, Mnemonic.text, not_mem_of_isIdentifier hid (show isWord (.scalar '\r') = false by decide)]
  have hn : .scalar '\n' ∉ codeLine label := by
    simp [codeLine, Mnemonic.text, not_mem_of_isIdentifier hid (show isWord (.scalar '\n') = false by decide)]
  exact linesOf_line_newline hr hn []

theorem linesOf_dataLine {label : List CodePoint} (hid : isIdentifier label = true) :
    linesOf (dataLine label) = [dataLine label] := by
  refine linesOf_of_not_mem ?_ ?_
  · simp [dataLine, Mnemonic.text, not_mem_of_isIdentifier hid (show isWord (.scalar '\r') = false by decide)]
  · simp [dataLine, Mnemonic.text, not_mem_of_isIdentifier hid (show isWord (.scalar '\n') = false by decide)]

theorem head?_ne_newline {label : List CodePoint} (hid : isIdentifier label = true) (t : List CodePoint) :
    (label ++ t).head? ≠ some (.scalar '\n') := by
  cases label with
  | nil => simp [isIdentifier] at hid
  | cons c label =>
    have hc := all_isWord_of_isIdentifier hid c List.mem_cons_self
    rintro he
    obtain rfl : c = '\n' := by simpa using he
    exact absurd hc (by decide)

theorem first_dat {s : Source} {r : Record} (h : s.records.find? (·.isMnemonic .dat) = some r) :
    r ∈ s.records ∧ r.isMnemonic .dat = true ∧
      ∀ x ∈ s.records, x.line < r.line → x.isMnemonic .dat = false := by
  obtain ⟨hr, xs, ys, hs, hxs⟩ := List.find?_eq_some_iff_append.1 h
  refine ⟨by simp [hs], hr, fun x hx hlt => ?_⟩
  rw [hs] at hx
  rcases List.mem_append.1 hx with hx | hx
  · simpa using hxs x hx
  · have hp := s.pairwise_line_records
    rw [hs] at hp
    have hpr := (List.pairwise_append.1 hp).2.1
    rcases List.mem_cons.1 hx with rfl | hx
    · omega
    · have hlt' := (List.pairwise_cons.1 hpr).1 x hx
      omega

theorem exists_putIn {s : Source} {d : Diagnostic} {labels : LabelTable}
    (hc : labels.contains d.token = false) (hid : isIdentifier d.token = true) :
    ∃ title e text k new, createLabel s s.records labels d = some (title, e) ∧
      e.textAfter s = some text ∧ PutIn s k new text ∧
      (isBranchLine s.records d.span.line = true → new = [codeLine d.token, []] ∧
        (∀ r ∈ s.records, r.line < k → r.isMnemonic .dat = false) ∧
        ∀ r ∈ (readRecords k (s.lines.drop k)).head?, r.isMnemonic .dat = true) ∧
      (isBranchLine s.records d.span.line = false → new = [dataLine d.token] ∧
        readRecords k (s.lines.drop k) = []) := by
  rw [createLabel_eq hc hid]
  cases hb : isBranchLine s.records d.span.line with
  | false =>
    have hlast : (dataLine d.token).getLast? ≠ some (.scalar '\r') := by simp [dataLine, Mnemonic.text]
    have hfirst : (dataLine d.token).head? ≠ some (.scalar '\n') := head?_ne_newline hid _
    have hne : dataLine d.token ≠ [] := by simp [dataLine]
    obtain ⟨text, k, ht, hp, hempty⟩ := putIn_atEnd s hne hfirst hlast
    rw [linesOf_dataLine hid] at hp
    exact ⟨_, _, text, k, _, rfl, ht, hp, by simp, fun _ => ⟨rfl, readRecords_of_empty hempty k⟩⟩
  | true =>
    have hfirst : (codeLine d.token ++ [CodePoint.scalar '\n']).head? ≠ some (.scalar '\n') := by
      rw [codeLine, List.append_assoc]
      exact head?_ne_newline hid _
    cases hf : s.records.find? (·.isMnemonic .dat) with
    | some r =>
      obtain ⟨hr, hdat, habove⟩ := first_dat hf
      obtain ⟨line, hline, hread⟩ := Source.mem_records_iff.1 hr
      rw [← s.lines_eq] at hline
      have hne : line ≠ [] := by
        rintro rfl
        exact absurd hread (by simp [show Statement.read? [] = none from rfl])
      obtain ⟨text, ht, hp⟩ := putIn_above hline hne (by simp) hfirst (by simp)
      rw [linesOf_codeLine hid] at hp
      refine ⟨_, _, text, r.line, _, rfl, ht, hp, fun _ => ⟨rfl, habove, fun x hx => ?_⟩, by simp⟩
      rw [List.drop_eq_getElem?_toList_append, hline] at hx
      obtain rfl : { r.toStatement with line := r.line } = x := by
        simpa [readRecords, hread] using hx
      exact hdat
    | none =>
      obtain ⟨text, k, ht, hp, hempty⟩ := putIn_atEnd s (by simp) hfirst (by simp)
      rw [linesOf_codeLine hid] at hp
      refine ⟨_, _, text, k, _, rfl, ht, hp, fun _ => ⟨rfl, fun r hr _ => ?_, ?_⟩, by simp⟩
      · simpa using List.find?_eq_none.1 hf r hr
      · simp [readRecords_of_empty hempty k]

def OnBranch (s : Source) (d : Diagnostic) : Prop :=
  ∃ r ∈ s.records, (r.line : Int) = d.span.line ∧
    (r.isMnemonic .bra = true ∨ r.isMnemonic .brz = true ∨ r.isMnemonic .brp = true)

theorem any_isBranch_iff (r : Record) :
    (Mnemonic.ofText? r.mnemonic.text).any Mnemonic.isBranch = true ↔
      r.isMnemonic .bra = true ∨ r.isMnemonic .brz = true ∨ r.isMnemonic .brp = true := by
  simp only [isMnemonic_iff]
  cases Mnemonic.ofText? r.mnemonic.text with
  | none => simp
  | some m => cases m <;> simp [Mnemonic.isBranch]

theorem isBranchLine_iff (s : Source) (d : Diagnostic) :
    isBranchLine s.records d.span.line = true ↔ OnBranch s d := by
  rw [isBranchLine]
  cases hf : s.records.find? fun r => r.line = d.span.line with
  | none =>
    have hnone := List.find?_eq_none.1 hf
    constructor
    · simp
    · rintro ⟨r, hr, hl, -⟩
      exact absurd (hnone r hr) (by simp [hl])
  | some r =>
    have hr := List.mem_of_find?_eq_some hf
    have hl : (r.line : Int) = d.span.line := by simpa using List.find?_some hf
    rw [Option.bind_some, any_isBranch_iff]
    constructor
    · exact fun hb => ⟨r, hr, hl, hb⟩
    · rintro ⟨x, hx, hlx, hb⟩
      obtain rfl := Source.eq_of_line_eq hx hr (by omega)
      exact hb

end LittleMan
