import LittleMan.Proofs.LineGrammar
import LittleMan.Proofs.Words

/-! The spans of diagnostics. Each of them is one word of the code of its line, as the record of that line has
it, and only ASCII characters stand before it. -/

namespace LittleMan

open Analysis

/-- The word that a diagnostic names, as it stands in the text. -/
def Diagnostic.marked (d : Diagnostic) : List CodePoint :=
  if d.kind = .undefinedLabelReference then (.scalar '@') :: d.token else d.token

/-- The span of a diagnostic is the word of a record that its kind is about, on the line of the record. -/
structure Diagnostic.MarksWord (d : Diagnostic) (s : Source) (r : Record) (line : List CodePoint) : Prop where
  record : r ∈ s.records
  on_line : d.span.line = r.line
  line_eq : s.lines[r.line]? = some line
  reading : Statement.read? line = some r.toStatement
  subject : (r.subject? d.kind).map (·.span r.line) = some d.span
  len_pos : 1 ≤ d.span.len
  col_nonneg : 0 ≤ d.span.col
  stopCol_le : d.span.stopCol ≤ (codePart line).length
  not_space : ∀ c ∈ slice line d.span.col d.span.stopCol, isSpace c = false
  ascii : ∀ c ∈ line.take d.span.col.toNat, c.toNat < 128
  text : s.textAt d.span = .ok d.marked

theorem Statement.unbroken_of_read? {line : List CodePoint} {st : Statement} {w : Word}
    (h : read? line = some st) (hw : w ∈ st.words) :
    w.text ≠ [] ∧ ∀ c ∈ w.text, isSpace c = false := by
  have hinstruction : ∀ {gap mnemonic rest : List CodePoint}, IsInstruction gap mnemonic rest →
      mnemonic ≠ [] ∧ ∀ c ∈ mnemonic, isSpace c = false := by
    intro gap mnemonic rest hi
    exact ⟨hi.mnemonic_ne_nil, fun c hc => not_isSpace_of_isWord (isWord_of_isUpper (hi.upper c hc))⟩
  have hoperand : ∀ {col : Nat} {rest : List CodePoint} {o : Option Word}, OperandReading col rest o →
      ∀ v ∈ o.toList, v.text ≠ [] ∧ ∀ c ∈ v.text, isSpace c = false := by
    intro col rest o ho v hv
    cases ho with
    | word ho =>
      obtain rfl := List.mem_singleton.1 hv
      exact ⟨ho.operand_ne_nil, ho.operand⟩
    | absent => cases hv
  have hread := lineReading_read? line
  rw [h] at hread
  cases hread with
  | @labelled label gap mnemonic rest operand hl ho =>
    simp only [words, Option.toList_some, List.singleton_append, List.mem_cons] at hw
    rcases hw with rfl | rfl | hw
    · have hword := all_isWord_of_isIdentifier hl.identifier
      refine ⟨?_, fun c hc => not_isSpace_of_isWord (hword c hc)⟩
      have hid := hl.identifier
      rintro rfl
      cases hid
    · exact hinstruction hl.instruction
    · exact hoperand ho w hw
  | @unlabelled gap mnemonic rest operand hno hu ho =>
    simp only [words, Option.toList_none, List.nil_append, List.mem_cons] at hw
    rcases hw with rfl | hw
    · exact hinstruction hu.instruction
    · exact hoperand ho w hw

theorem Word.FollowsAscii.stop_le {w : Word} {line : List CodePoint} (h : w.FollowsAscii line) :
    w.col + w.text.length ≤ line.length := by
  obtain ⟨head, tail, rfl, hcol, -⟩ := h
  simp only [List.length_append]
  omega

theorem exists_operand_of_undefinedReference {s : Source} {a : Analysis} {d : Diagnostic}
    (ha : analyze s = .ok a) (hd : d ∈ a.diagnostics) (hk : d.kind = .undefinedLabelReference) :
    ∃ r ∈ s.records, ∃ w, r.operand = some w ∧ d.span.line = r.line ∧ w.text = .scalar '@' :: d.token := by
  obtain ⟨before, r, after, xs, ys, hrecords, hf, -⟩ :=
    exists_origin ha hd (by simp [hk]) (by simp [hk])
  have hr : r ∈ s.records := by simp [hrecords]
  cases hf with
  | @undefinedReference w _ _ ho haddr _ =>
    obtain ⟨label, hw⟩ := addressing_eq_indirect_iff.1 haddr
    refine ⟨r, hr, w, ho, rfl, ?_⟩
    simp [Analysis.undefinedReference, hw]
  | missingOperand | immediateOutOfRange | numericOutOfRange | numericNeedsHash | incompleteImmediate
  | undefinedLabel | datOperandInvalid => cases hk

theorem Diagnostic.IsAbout.text_eq_marked {s : Source} {a : Analysis} {d : Diagnostic} {r : Record}
    {w : Word} (habout : d.IsAbout r w) (hr : r ∈ s.records) (ha : analyze s = .ok a)
    (hd : d ∈ a.diagnostics) : w.text = d.marked := by
  by_cases hk : d.kind = .undefinedLabelReference
  · obtain ⟨r', hr', v, hv, hline, htext⟩ := exists_operand_of_undefinedReference ha hd hk
    have hsame : r'.line = r.line := by
      have hspan := congrArg Span.line habout.span
      simp only [Word.span] at hspan
      omega
    obtain rfl := Source.eq_of_line_eq hr' hr hsame
    have hw : r'.operand = some w := by simpa [Record.subject?, hk] using habout.subject
    obtain rfl : v = w := Option.some.inj (hv.symm.trans hw)
    rw [htext, Diagnostic.marked, if_pos hk]
  · rw [Diagnostic.marked, if_neg hk, habout.token, tokenOf_of_ne hk]

/-- Every diagnostic marks exactly the word that it is about. -/
theorem exists_marksWord {s : Source} {a : Analysis} {d : Diagnostic} (ha : analyze s = .ok a)
    (hd : d ∈ a.diagnostics) : ∃ r line, d.MarksWord s r line := by
  obtain ⟨r, hr, w, habout⟩ := exists_isAbout ha hd
  obtain ⟨line, hline, hread⟩ := Source.mem_records_iff.1 hr
  rw [← s.lines_eq] at hline
  have hw := mem_words_of_subject? habout.subject
  have hcode := Statement.followsAscii_codePart_of_read? hread hw
  have hascii := Statement.followsAscii_of_read? hread hw
  obtain ⟨hne, hspace⟩ := Statement.unbroken_of_read? hread hw
  have hslice := hascii.standsIn.slice_eq r.line
  rw [← habout.span] at hslice
  have hcol : d.span.col = w.col := by rw [habout.span]; rfl
  have hlen : d.span.len = w.text.length := by rw [habout.span]; rfl
  refine ⟨r, line, ?_⟩
  constructor
  case record => exact hr
  case on_line => rw [habout.span]; rfl
  case line_eq => exact hline
  case reading => exact hread
  case subject => rw [habout.subject, habout.span]; rfl
  case len_pos =>
    have hpos := List.length_pos_iff.2 hne
    omega
  case col_nonneg => omega
  case stopCol_le =>
    have hle := hcode.stop_le
    rw [Span.stopCol, hcol, hlen]
    omega
  case not_space => rwa [hslice]
  case ascii =>
    rw [hcol, Int.toNat_natCast]
    exact hascii.of_mem_take
  case text =>
    rw [← habout.text_eq_marked hr ha hd, habout.span]
    exact textAt_of_mem_words hr hw

def doubledLabel : Source := Source.named none (Text.toList "P DAT\r\nP \tLDA @𝄞;ä")

theorem exists_marksWord_doubledLabel :
    ∃ a, analyze doubledLabel = .ok a ∧
      Analysis.undefinedReference 1 ⟨7, ['@', '𝄞']⟩ ∈ a.diagnostics ∧
      ∃ r line, (Analysis.undefinedReference 1 ⟨7, ['@', '𝄞']⟩).MarksWord doubledLabel r line := by
  obtain ⟨a, ha, hd⟩ : ∃ a, analyze doubledLabel = .ok a ∧
      Analysis.undefinedReference 1 ⟨7, ['@', '𝄞']⟩ ∈ a.diagnostics := by
    refine ⟨_, rfl, ?_⟩
    decide +kernel
  exact ⟨a, ha, hd, exists_marksWord ha hd⟩

end LittleMan
