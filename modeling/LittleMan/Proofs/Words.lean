import LittleMan.Proofs.Addressing
import LittleMan.Proofs.Grammar
import LittleMan.Proofs.Origin
import LittleMan.Protocol.Exchange

/-! Where the words of a record stand in their line, and which of them a diagnostic is about. The text
under a diagnostic is that word, from which its token is told. -/

namespace LittleMan

open Analysis

/-- The word is found in the line at the column that it has. -/
def Word.StandsIn (w : Word) (line : List CodePoint) : Prop :=
  ∃ head tail, line = head ++ (w.text ++ tail) ∧ w.col = head.length

theorem Word.StandsIn.slice_eq {w : Word} {line : List CodePoint} (h : w.StandsIn line) (n : Int) :
    slice line (w.span n).col (w.span n).stopCol = w.text := by
  obtain ⟨head, tail, rfl, hcol⟩ := h
  have hstop : (w.span n).stopCol = (w.col + w.text.length : Nat) := by
    simp [Word.span, Span.stopCol]
  rw [hstop, Word.span, slice_natCast, hcol, ← List.append_assoc, ← List.length_append,
    List.take_left, List.drop_left]

/-- The word stands in the line behind ASCII characters only. -/
def Word.FollowsAscii (w : Word) (line : List CodePoint) : Prop :=
  ∃ head tail, line = head ++ (w.text ++ tail) ∧ w.col = head.length ∧ ∀ c ∈ head, c.toNat < 128

namespace Word.FollowsAscii

variable {w : Word} {line : List CodePoint}

theorem standsIn (h : w.FollowsAscii line) : w.StandsIn line := by
  obtain ⟨head, tail, hline, hcol, -⟩ := h
  exact ⟨head, tail, hline, hcol⟩

theorem append (h : w.FollowsAscii line) (more : List CodePoint) : w.FollowsAscii (line ++ more) := by
  obtain ⟨head, tail, rfl, hcol, hascii⟩ := h
  exact ⟨head, tail ++ more, by simp only [List.append_assoc], hcol, hascii⟩

theorem of_mem_take (h : w.FollowsAscii line) : ∀ c ∈ line.take w.col, c.toNat < 128 := by
  obtain ⟨head, tail, rfl, hcol, hascii⟩ := h
  rwa [hcol, List.take_left]

end Word.FollowsAscii

theorem ascii_of_isSpace {c : CodePoint} (h : isSpace c = true) : c.toNat < 128 := by
  rw [isSpace_iff] at h
  omega

theorem ascii_of_isUpper {c : CodePoint} (h : c.isUpper = true) : c.toNat < 128 := by
  rw [CodePoint.isUpper_iff] at h
  omega

theorem ascii_of_isWord {c : CodePoint} (h : isWord c = true) : c.toNat < 128 := by
  rw [isWord_iff, CodePoint.isUpper_iff, CodePoint.isLower_iff, CodePoint.isDigit_iff] at h
  rcases h with h | h | h | rfl
  · omega
  · omega
  · omega
  · decide

namespace Statement

def words (st : Statement) : List Word := st.label.toList ++ st.mnemonic :: st.operand.toList

theorem followsAscii_of_instruction? {code : List CodePoint} {m w : Word} {o : Option Word}
    (before : List CodePoint) (hbefore : ∀ c ∈ before, c.toNat < 128)
    (h : instruction? before.length code = some (m, o)) (hw : w ∈ m :: o.toList) :
    w.FollowsAscii (before ++ code) := by
  obtain ⟨blanks, a, b, c, rest, rfl, rfl, ho, hb, hu, -⟩ := exists_of_instruction? h
  have hblanks : ∀ x ∈ before ++ blanks, x.toNat < 128 := by
    intro x hx
    exact (List.mem_append.1 hx).elim (hbefore x) fun hx => ascii_of_isSpace (hb x hx)
  rcases List.mem_cons.1 hw with rfl | hw
  · exact ⟨before ++ blanks, rest, by simp, by simp, hblanks⟩
  · obtain rfl : o = some w := by simpa using hw
    obtain ⟨gap, tail, rfl, hcol, -, hgap, -, -, -⟩ := exists_of_operand? ho.symm
    refine ⟨before ++ blanks ++ a :: b :: c :: gap, tail, by simp, ?_, fun x hx => ?_⟩
    · simp only [hcol, List.length_append, List.length_cons]
      omega
    · simp only [Bool.and_eq_true] at hu
      rcases List.mem_append.1 hx with hx | hx
      · exact hblanks x hx
      · simp only [List.mem_cons] at hx
        rcases hx with rfl | rfl | rfl | hx
        · exact ascii_of_isUpper hu.1.1
        · exact ascii_of_isUpper hu.1.2
        · exact ascii_of_isUpper hu.2
        · exact ascii_of_isSpace (hgap x hx)

theorem followsAscii_codePart_of_read? {line : List CodePoint} {st : Statement} {w : Word}
    (h : read? line = some st) (hw : w ∈ st.words) : w.FollowsAscii (codePart line) := by
  simp only [read?] at h
  cases hl : labelled? (codePart line) with
  | none =>
    simp only [hl, Option.map_eq_some_iff, Prod.exists] at h
    obtain ⟨m, o, hi, rfl⟩ := h
    exact followsAscii_of_instruction? [] (by simp) hi hw
  | some st' =>
    obtain rfl : st' = st := by simpa [hl] using h
    rw [labelled?] at hl
    split at hl
    · next label rest hlab =>
      obtain ⟨⟨m, o⟩, hi, rfl⟩ := Option.map_eq_some_iff.1 hl
      obtain ⟨-, -, -, hcode, hcol, -, hid, -⟩ := exists_of_label? hlab
      rw [hcode]
      rcases List.mem_cons.1 (show w ∈ label :: m :: o.toList from hw) with rfl | hw
      · exact ⟨[], rest, rfl, hcol, by simp⟩
      · have hword := all_isWord_of_isIdentifier hid
        exact followsAscii_of_instruction? label.text
          (fun c hc => ascii_of_isWord (hword c hc)) hi hw
    · cases hl

theorem followsAscii_of_read? {line : List CodePoint} {st : Statement} {w : Word}
    (h : read? line = some st) (hw : w ∈ st.words) : w.FollowsAscii line := by
  obtain ⟨comment, hline, -, -⟩ := exists_comment line
  rw [hline]
  exact (followsAscii_codePart_of_read? h hw).append comment

/-- What a line is read as has an identifier for its label, and none that is a mnemonic. -/
theorem isIdentifier_of_read? {line : List CodePoint} {st : Statement} {w : Word}
    (h : read? line = some st) (hw : st.label = some w) :
    isIdentifier w.text = true ∧ Mnemonic.ofText? w.text = none := by
  simp only [read?] at h
  cases hl : labelled? (codePart line) with
  | none =>
    simp only [hl, Option.map_eq_some_iff, Prod.exists] at h
    obtain ⟨m, o, -, rfl⟩ := h
    cases hw
  | some st' =>
    obtain rfl : st' = st := by simpa [hl] using h
    rw [labelled?] at hl
    split at hl
    · next label rest hlab =>
      obtain ⟨p, -, rfl⟩ := Option.map_eq_some_iff.1 hl
      obtain rfl : label = w := Option.some.inj hw
      obtain ⟨-, -, -, -, -, -, hid, hm⟩ := exists_of_label? hlab
      exact ⟨hid, hm⟩
    · cases hl

end Statement

theorem exists_line_followsAscii {s : Source} {r : Record} {w : Word} (hr : r ∈ s.records)
    (hw : w ∈ r.words) :
    ∃ line, s.lines[r.line]? = some line ∧ w.FollowsAscii line := by
  obtain ⟨line, hline, hread⟩ := Source.mem_records_iff.1 hr
  exact ⟨line, s.lines_eq ▸ hline, Statement.followsAscii_of_read? hread hw⟩

theorem exists_line_of_mem_words {s : Source} {r : Record} {w : Word} (hr : r ∈ s.records)
    (hw : w ∈ r.words) :
    ∃ line, s.lines[r.line]? = some line ∧ w.StandsIn line := by
  obtain ⟨line, hline, h⟩ := exists_line_followsAscii hr hw
  exact ⟨line, hline, h.standsIn⟩

theorem textAt_of_mem_words {s : Source} {r : Record} {w : Word} (hr : r ∈ s.records)
    (hw : w ∈ r.words) : s.textAt (w.span r.line) = .ok w.text := by
  obtain ⟨line, hline, hstands⟩ := exists_line_of_mem_words hr hw
  simp only [Source.textAt, Word.span, nth?_natCast, hline]
  exact congrArg Except.ok (hstands.slice_eq r.line)

/-- The token of a diagnostic on a word is what the text has under its span. -/
theorem textAt_report {s : Source} {r : Record} {w : Word} (hr : r ∈ s.records) (hw : w ∈ r.words)
    (k : Kind) (message : Text) :
    s.textAt (report k message r.line w).span = .ok (report k message r.line w).token :=
  textAt_of_mem_words hr hw

/-- The word of a record that a kind of diagnostic is about. -/
def Record.subject? (r : Record) : Kind → Option Word
  | .duplicateLabel => r.label
  | .invalidInstruction | .missingOperand => some r.mnemonic
  | _ => r.operand

theorem mem_words_of_subject? {r : Record} {k : Kind} {w : Word} (h : r.subject? k = some w) :
    w ∈ r.words := by
  cases k <;> simp_all [Record.subject?, Statement.words]

/-- A diagnostic as the analysis makes it, about a word of a record. -/
structure Diagnostic.IsAbout (d : Diagnostic) (r : Record) (w : Word) : Prop where
  subject : r.subject? d.kind = some w
  span : d.span = w.span r.line
  token : d.token = tokenOf d.kind w.text
  severity : d.severity = .error
  source : d.source = .str "LMC"
  lineAsTruth : d.lineAsTruth = false

theorem tokenOf_of_ne {k : Kind} (h : k ≠ .undefinedLabelReference) (t : List CodePoint) :
    Diagnostic.tokenOf k t = t := by
  unfold Diagnostic.tokenOf
  split
  · exact absurd rfl h
  · rfl

theorem isAbout_report {k : Kind} {r : Record} {w : Word} (message : Text)
    (h : r.subject? k = some w) (hk : k ≠ .undefinedLabelReference) :
    (report k message r.line w).IsAbout r w :=
  ⟨h, rfl, (tokenOf_of_ne hk w.text).symm, rfl, rfl, rfl⟩

theorem Analysis.Finding.exists_isAbout {labels : LabelTable} {r : Record} {d : Diagnostic}
    (h : Finding labels r d) : ∃ w, d.IsAbout r w := by
  cases h with
  | missingOperand => exact ⟨r.mnemonic, isAbout_report _ rfl (by simp)⟩
  | @undefinedReference w _ _ ho ha _ =>
    obtain ⟨label, hw⟩ := addressing_eq_indirect_iff.1 ha
    refine ⟨w, ho, rfl, ?_, rfl, rfl, rfl⟩
    simp [Analysis.undefinedReference, report, Diagnostic.tokenOf, hw]
  | immediateOutOfRange _ ho | numericOutOfRange _ ho | numericNeedsHash _ _ ho
  | incompleteImmediate _ _ ho | undefinedLabel _ _ ho | datOperandInvalid _ ho =>
    exact ⟨_, isAbout_report _ ho (by simp)⟩

theorem exists_isAbout_of_mem_inspectMnemonic {r : Record} {d : Diagnostic}
    (h : d ∈ inspectMnemonic r) : ∃ w, d.IsAbout r w := by
  rw [inspectMnemonic] at h
  split at h
  · simp at h
  · obtain rfl := List.mem_singleton.1 h
    exact ⟨r.mnemonic, rfl, rfl, rfl, rfl, rfl, rfl⟩

theorem exists_of_mem_repeatedLabels {known : LabelTable} {rs : List Record} {p : Nat × Word}
    (h : p ∈ repeatedLabels known rs) : ∃ r ∈ rs, r.line = p.1 ∧ r.label = some p.2 := by
  induction rs generalizing known with
  | nil => simp [repeatedLabels] at h
  | cons r rs ih =>
    have hlater : p ∈ repeatedLabels (known.addRecord r) rs →
        ∃ r' ∈ r :: rs, r'.line = p.1 ∧ r'.label = some p.2 := by
      intro hp
      obtain ⟨r', hr', hh⟩ := ih hp
      exact ⟨r', List.mem_cons_of_mem _ hr', hh⟩
    simp only [repeatedLabels] at h
    split at h
    · next w hl =>
      split at h
      · rcases List.mem_cons.1 h with rfl | h
        · exact ⟨r, List.mem_cons_self, rfl, hl⟩
        · exact hlater h
      · exact hlater h
    · exact hlater h

/-- What is found in a text: a label that is given again, a word that is no mnemonic, or an operand that
cannot be taken. -/
inductive Source.Finds (s : Source) : Diagnostic → Prop
  | label {r : Record} {w : Word} (hr : r ∈ s.records) (hl : r.label = some w) :
      Finds s (report .duplicateLabel ("Duplicate label: " ++ Text.ofList w.text) r.line w)
  | mnemonic {r : Record} {d : Diagnostic} (hr : r ∈ s.records) (hm : d ∈ inspectMnemonic r) : Finds s d
  | operand {r : Record} {d : Diagnostic} (hr : r ∈ s.records)
      (hf : Finding (LabelTable.ofRecords s.records) r d) : Finds s d

theorem finds_of_mem {s : Source} {a : Analysis} {d : Diagnostic} (ha : analyze s = .ok a)
    (hd : d ∈ a.diagnostics) : s.Finds d := by
  obtain ⟨ds, hds, rfl⟩ := analyze_ok_iff.1 ha
  rcases List.mem_append.1 hd with hd | hd
  · obtain ⟨⟨n, w⟩, hp, rfl⟩ := List.mem_map.1 hd
    obtain ⟨r, hr, rfl, hl⟩ := exists_of_mem_repeatedLabels hp
    exact .label hr hl
  · obtain ⟨before, r, after, xs, zs, ys, hrs, -, hz, -, -, hm⟩ := exists_record_of_mem hds hd
    have hr : r ∈ s.records := by simp [hrs]
    rcases inspectRecord_ok hz with rfl | ⟨f, rfl, hf⟩
    · exact .mnemonic hr hm
    · rcases List.mem_append.1 hm with hm | hm
      · exact .mnemonic hr hm
      · obtain rfl := List.mem_singleton.1 hm
        exact .operand hr hf

theorem exists_isAbout {s : Source} {a : Analysis} {d : Diagnostic} (ha : analyze s = .ok a)
    (hd : d ∈ a.diagnostics) : ∃ r ∈ s.records, ∃ w, d.IsAbout r w := by
  cases finds_of_mem ha hd with
  | @label r w hr hl => exact ⟨r, hr, w, isAbout_report _ hl (by simp)⟩
  | @mnemonic r _ hr hm => exact ⟨r, hr, exists_isAbout_of_mem_inspectMnemonic hm⟩
  | @operand r _ hr hf => exact ⟨r, hr, hf.exists_isAbout⟩

end LittleMan
