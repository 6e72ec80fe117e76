import LittleMan.Proofs.Places
import LittleMan.Proofs.Proposals
import LittleMan.Proofs.WordReplacement
import LittleMan.Proofs.Words

/-! The fixes of words that are no mnemonic. Each writes a mnemonic in the place of one word. A mnemonic is
never a label, so the line keeps its reading, and with it its label and its operand. -/

namespace LittleMan

open Analysis

def Record.withMnemonic (r : Record) (m : Mnemonic) : Record :=
  { r.toStatement.withMnemonic m with line := r.line }

/-- Diagnostics of other lines than that of `d`, and of repeated labels on any line. -/
def Diagnostic.isApartFrom (d d' : Diagnostic) : Bool :=
  d'.kind == .duplicateLabel || d'.span.line != d.span.line

/-- A text differs from the one that was analysed by the mnemonic on the line of a diagnostic. -/
structure MnemonicChanged (s : Source) (a : Analysis) (d : Diagnostic) (m : Mnemonic) (s' : Source) :
    Prop where
  records : s'.records =
    s.records.map fun r => if (r.line : Int) = d.span.line then r.withMnemonic m else r
  analysis : ∃ a', analyze s' = .ok a' ∧ a'.labels = a.labels ∧
    (∀ d' ∈ a'.diagnostics, d'.span.line = d.span.line → d'.kind ≠ .invalidInstruction) ∧
    a'.diagnostics.filter d.isApartFrom = a.diagnostics.filter d.isApartFrom

variable {s : Source} {a : Analysis} {d : Diagnostic} {r : Record} {labels : LabelTable}
  {before after : List Record}

theorem exists_text_replace_mnemonic (hs : s.records = before ++ r :: after) (m : Mnemonic) :
    ∃ text, (Edit.replace (r.mnemonic.span r.line) m.text).textAfter s = some text ∧
      (s.withText text).records = before ++ r.withMnemonic m :: after := by
  have hne : m.text ≠ [] := by cases m <;> simp [Mnemonic.text]
  refine exists_text_replace_word hs (fun line hread => ?_) rfl hne (m.not_mem_text (by decide))
    (m.not_mem_text (by decide))
  obtain ⟨head, tail, hline, hcol, hplace⟩ := Statement.exists_mnemonic_place hread
  exact ⟨head, tail, hline, hcol, hplace m⟩

namespace Analysis

def invalidInstruction (r : Record) : Diagnostic :=
  { report .invalidInstruction ("Invalid instruction: " ++ Text.ofList r.mnemonic.text) r.line
      r.mnemonic with
    candidates := (suggestions r.mnemonic.text).map fun m => .str m.name }

theorem eq_of_mem_inspectMnemonic (h : d ∈ inspectMnemonic r) :
    Mnemonic.ofText? r.mnemonic.text = none ∧ d = invalidInstruction r := by
  rw [inspectMnemonic] at h
  split at h
  · cases h
  · next hno => exact ⟨hno, List.mem_singleton.1 h⟩

theorem Finding.kind_ne_invalidInstruction (h : Finding labels r d) :
    d.kind ≠ .invalidInstruction := by
  cases h <;> exact Kind.noConfusion

/-- A word that is no mnemonic has its diagnostic from its record, among those of the other records. -/
theorem exists_origin_of_invalid (ha : analyze s = .ok a) (hd : d ∈ a.diagnostics)
    (hk : d.kind = .invalidInstruction) :
    ∃ before r after xs zs ys, s.records = before ++ r :: after ∧
      Mnemonic.ofText? r.mnemonic.text = none ∧ d = invalidInstruction r ∧
      inspectRecords a.labels before = .ok xs ∧ inspectRecord a.labels r = .ok zs ∧
      inspectRecords a.labels after = .ok ys ∧
      a.diagnostics = duplicates s.records ++ (xs ++ (zs ++ ys)) := by
  obtain ⟨ds, hds, rfl⟩ := analyze_ok_iff.1 ha
  have hm : d ∈ ds := by
    rcases List.mem_append.1 hd with hd | hd
    · have hdup := kind_of_mem_duplicates hd
      rw [hk] at hdup
      cases hdup
    · exact hd
  obtain ⟨before, r, after, xs, zs, ys, hrs, hx, hz, hy, rfl, hmem⟩ := exists_record_of_mem hds hm
  have hhere : d ∈ inspectMnemonic r := by
    rcases inspectRecord_ok hz with rfl | ⟨f, rfl, hf⟩
    · exact hmem
    · rcases List.mem_append.1 hmem with hmem | hmem
      · exact hmem
      · rw [List.mem_singleton.1 hmem] at hk
        exact absurd hk hf.kind_ne_invalidInstruction
  obtain ⟨hno, heq⟩ := eq_of_mem_inspectMnemonic hhere
  exact ⟨before, r, after, xs, zs, ys, hrs, hno, heq, hx, hz, hy, rfl⟩

variable {mnemonic mnemonic' : List CodePoint} {line : Nat} {w : Word} {os : List Diagnostic}

theorem exists_inspectOperand_of_ok (h : inspectOperand labels mnemonic line w = .ok os) :
    ∃ os', inspectOperand labels mnemonic' line w = .ok os' := by
  cases ha : addressing w.text with
  | numeric =>
    rw [inspectOperand_numeric ha] at h ⊢
    exact ⟨os, h⟩
  | immediate =>
    rw [inspectOperand_immediate ha] at h ⊢
    by_cases hlen : w.text.length ≤ 1
    · exact ⟨_, if_pos hlen⟩
    · rw [if_neg hlen] at h ⊢
      exact ⟨os, h⟩
  | indirect => exact ⟨_, inspectOperand_indirect ha⟩
  | direct => exact ⟨_, inspectOperand_direct ha⟩

/-- The operand of another word can be taken for that of `DAT`: the same numerals are read. -/
theorem exists_inspectData_of_ok (h : inspectOperand labels mnemonic line w = .ok os) :
    ∃ os', inspectData labels line w = .ok os' := by
  by_cases hn : addressing w.text = .numeric
  · rw [inspectOperand_numeric hn] at h
    cases hv : hasValue w.text with
    | error e => simp [hv, Except.map] at h
    | ok b => exact ⟨_, by simp only [inspectData, hn, inspectValue, hv]; rfl⟩
  by_cases hm : addressing w.text = .immediate
  · rw [inspectOperand_immediate hm] at h
    simp only [inspectData, hm]
    by_cases hlen : w.text.length ≤ 1
    · have hdrop : w.text.drop 1 = [] := List.drop_eq_nil_of_le hlen
      exact ⟨_, by rw [hdrop]; rfl⟩
    · rw [if_neg hlen] at h
      exact ⟨os, h⟩
  · exact ⟨_, inspectData_label hn hm⟩

theorem exists_inspectRecord_withMnemonic (hno : Mnemonic.ofText? r.mnemonic.text = none)
    (h : inspectRecord labels r = .ok os) (m : Mnemonic) :
    ∃ os', inspectRecord labels (r.withMnemonic m) = .ok os' := by
  suffices harg : ∃ os', inspectArgument labels (r.withMnemonic m) = .ok os' by
    obtain ⟨os', harg⟩ := harg
    exact ⟨_, by rw [inspectRecord, harg]; rfl⟩
  rw [inspectArgument_eq]
  by_cases hi : (r.withMnemonic m).ignoresOperand = true
  · exact ⟨_, if_pos hi⟩
  have hoperand : (r.withMnemonic m).operand = r.operand := rfl
  rw [if_neg hi, hoperand]
  cases ho : r.operand with
  | none => exact ⟨_, rfl⟩
  | some w =>
    have hi' : r.ignoresOperand = false := by simp [Record.ignoresOperand, hno]
    have hd' : r.isMnemonic .dat = false := by
      rw [Bool.eq_false_iff, ne_eq, isMnemonic_iff, hno]
      simp
    obtain ⟨as, has⟩ : ∃ as, inspectOperand labels r.mnemonic.text r.line w = .ok as := by
      rw [inspectRecord, inspectArgument_eq] at h
      simp only [hi', ho, hd', Bool.false_eq_true, if_false] at h
      cases hop : inspectOperand labels r.mnemonic.text r.line w with
      | error e => simp [hop, Except.map] at h
      | ok as => exact ⟨as, rfl⟩
    dsimp only
    split
    · exact exists_inspectData_of_ok has
    · exact exists_inspectOperand_of_ok has

end Analysis

section

variable {xs ys zs zs' : List Diagnostic}

theorem records_replace (hs : s.records = before ++ r :: after) (f : Record → Record) :
    s.records.map (fun x => if (x.line : Int) = (r.line : Int) then f x else x) =
      before ++ f r :: after := by
  have hp := s.pairwise_line_records
  rw [hs, List.pairwise_append, List.pairwise_cons] at hp
  have hbefore : before.map (fun x => if (x.line : Int) = (r.line : Int) then f x else x) = before := by
    rw [List.map_congr_left, List.map_id]
    intro x hx
    have hlt := hp.2.2 x hx r List.mem_cons_self
    have hne : ¬ (x.line : Int) = (r.line : Int) := by omega
    rw [if_neg hne, id]
  have hafter : after.map (fun x => if (x.line : Int) = (r.line : Int) then f x else x) = after := by
    rw [List.map_congr_left, List.map_id]
    intro x hx
    have hlt := hp.2.1.1 x hx
    have hne : ¬ (x.line : Int) = (r.line : Int) := by omega
    rw [if_neg hne, id]
  rw [hs, List.map_append, List.map_cons, hbefore, hafter, if_pos rfl]

theorem filter_isApartFrom_eq_nil (hd : d.span.line = r.line) (hz : inspectRecord labels r = .ok zs) :
    zs.filter d.isApartFrom = [] := by
  apply List.filter_eq_nil_iff.2
  intro d' hd'
  have hline := line_of_mem_inspectRecord hz hd'
  have hkind := kind_ne_of_mem_inspectRecord hz hd'
  simp [Diagnostic.isApartFrom, hline, hd, hkind]

/-- On the line of a record that has a mnemonic no word is reported for being none. -/
theorem kind_ne_of_line_eq {m : Mnemonic} {d : Diagnostic} (hs : s.records = before ++ r :: after)
    (hx : inspectRecords labels before = .ok xs)
    (hz : inspectRecord labels (r.withMnemonic m) = .ok zs)
    (hy : inspectRecords labels after = .ok ys)
    (hd : d ∈ duplicates s.records ++ (xs ++ (zs ++ ys))) (hline : d.span.line = r.line) :
    d.kind ≠ .invalidInstruction := by
  have hp := s.pairwise_line_records
  rw [hs, List.pairwise_append, List.pairwise_cons] at hp
  simp only [List.mem_append] at hd
  rcases hd with hd | hd | hd | hd
  · simp [kind_of_mem_duplicates hd]
  · obtain ⟨x, hxb, hl⟩ := exists_line_of_mem hx hd
    have hlt := hp.2.2 x hxb r List.mem_cons_self
    omega
  · have hnone : inspectMnemonic (r.withMnemonic m) = [] := by
      have hm : Mnemonic.ofText? (r.withMnemonic m).mnemonic.text = some m := Mnemonic.ofText?_text m
      rw [inspectMnemonic, hm]
    rcases inspectRecord_ok hz with rfl | ⟨f, rfl, hf⟩
    · simp [hnone] at hd
    · rw [hnone, List.nil_append] at hd
      rw [List.mem_singleton.1 hd]
      exact hf.kind_ne_invalidInstruction
  · obtain ⟨x, hxa, hl⟩ := exists_line_of_mem hy hd
    have hlt := hp.2.1.1 x hxa
    omega

theorem exists_mnemonicChanged (ha : analyze s = .ok a) (hd : d ∈ a.diagnostics)
    (hk : d.kind = .invalidInstruction) (m : Mnemonic) :
    ∃ text, (Edit.replace d.span m.text).textAfter s = some text ∧
      MnemonicChanged s a d m (s.withText text) := by
  obtain ⟨before, r, after, xs, zs, ys, hs, hno, rfl, hx, hz, hy, hdiag⟩ :=
    exists_origin_of_invalid ha hd hk
  obtain ⟨text, htext, hs'⟩ := exists_text_replace_mnemonic hs m
  obtain ⟨zs', hz'⟩ := exists_inspectRecord_withMnemonic hno hz m
  obtain ⟨a', ha', hlabels, hdiag'⟩ := analyze_replace_record ha hs hs' rfl rfl hx hz' hy
  refine ⟨text, htext, ?_, a', ha', hlabels, ?_, ?_⟩
  · rw [hs']
    exact (records_replace hs fun x => x.withMnemonic m).symm
  · intro d' hd' hline
    rw [hdiag'] at hd'
    exact kind_ne_of_line_eq hs hx hz' hy hd' hline
  · have hold := filter_isApartFrom_eq_nil (d := invalidInstruction r) rfl hz
    have hnew := filter_isApartFrom_eq_nil (d := invalidInstruction r) (r := r.withMnemonic m) rfl hz'
    simp only [hdiag, hdiag', List.filter_append, hold, hnew]

end

theorem QuickFix.proposed_of_names {ms : List Mnemonic}
    (h : d.candidates = ms.map fun m => .str m.name) : proposed d = ms := by
  rw [proposed, h, List.filterMap_map]
  have hname : ∀ m : Mnemonic, Mnemonic.ofText? m.name.toList = some m := Mnemonic.ofText?_text
  induction ms with
  | nil => rfl
  | cons m ms ih => simp [hname]

/-- The actions for a word that is no mnemonic: one for each mnemonic that is like it. -/
theorem proposeActions_invalidInstruction (hr : r ∈ s.records) :
    proposeActions s none [invalidInstruction r] (fun _ => true) =
      .ok ((suggestions r.mnemonic.text).map fun m =>
        { title := "Change to " ++ m.name, uri := s.name,
          edits := [Edit.replace (invalidInstruction r).span m.text],
          diagnostics := [invalidInstruction r] }) := by
  have hproposed := QuickFix.proposed_of_names (d := invalidInstruction r) rfl
  have hword : r.mnemonic ∈ r.words := by simp [Statement.words]
  have htext : s.textAt (invalidInstruction r).span = .ok r.mnemonic.text :=
    textAt_of_mem_words hr hword
  have hfixes : QuickFix.fixes s s.records (LabelTable.ofRecords s.records) (invalidInstruction r) =
      .ok ((suggestions r.mnemonic.text).map fun m =>
        ("Change to " ++ m.name, QuickFix.replacement (invalidInstruction r) m.text)) := by
    have hkind : (invalidInstruction r).kind = .invalidInstruction := rfl
    simp only [QuickFix.fixes, hkind, hproposed, htext]
    cases hms : suggestions r.mnemonic.text with
    | nil => simp [Except.map, hms, bind, Except.bind, pure, Except.pure]
    | cons m ms => rfl
  rw [proposeActions_singleton_of_isOwn none (not_isBlank_of_mem_records hr) rfl, QuickFix.actions,
    Option.getD_none, hfixes, Except.map, List.map_map]
  rfl

/-- Replacing a word that is no mnemonic touches that word only: for each candidate, in the order of the
catalog, there is one action, after which its line says the same but for the mnemonic. -/
theorem diagnostics_after_mnemonic_fix (ha : analyze s = .ok a) (hd : d ∈ a.diagnostics)
    (hk : d.kind = .invalidInstruction) :
    ∃ r ∈ s.records, ∃ ms : List Mnemonic, d.span = r.mnemonic.span r.line ∧
      ms.Sublist Mnemonic.all ∧ d.candidates = ms.map (fun m => .str m.name) ∧
      proposeActions s none [d] (fun _ => true) = .ok (ms.map fun m =>
        { title := "Change to " ++ m.name, uri := s.name, edits := [Edit.replace d.span m.text],
          diagnostics := [d] }) ∧
      ∀ m ∈ ms, ∃ text, (Edit.replace d.span m.text).textAfter s = some text ∧
        MnemonicChanged s a d m (s.withText text) := by
  obtain ⟨before, r, after, xs, zs, ys, hs, -, heq, -⟩ := exists_origin_of_invalid ha hd hk
  have hr : r ∈ s.records := by simp [hs]
  refine ⟨r, hr, suggestions r.mnemonic.text, by rw [heq]; rfl, List.filter_sublist, by rw [heq]; rfl,
    ?_, fun m _ => exists_mnemonicChanged ha hd hk m⟩
  rw [heq]
  exact proposeActions_invalidInstruction hr

def misspelt : Source := Source.named none (Text.toList "LOOP LAD X ; again\n BRA LOOP\r\nX DAT")

def misspeltLoad : Diagnostic :=
  invalidInstruction ⟨⟨some ⟨0, ['L', 'O', 'O', 'P']⟩, ⟨5, ['L', 'A', 'D']⟩, some ⟨9, ['X']⟩⟩, 0⟩

theorem mnemonicChanged_misspelt :
    ∃ a text, analyze misspelt = .ok a ∧ misspeltLoad ∈ a.diagnostics ∧
      (Edit.replace misspeltLoad.span Mnemonic.lda.text).textAfter misspelt = some text ∧
      MnemonicChanged misspelt a misspeltLoad .lda (misspelt.withText text) := by
  obtain ⟨ds, hds, hmem⟩ : ∃ ds, inspectRecords (LabelTable.ofRecords misspelt.records)
      misspelt.records = .ok ds ∧ misspeltLoad ∈ ds := by
    exact ⟨[misspeltLoad], by rfl, List.mem_singleton_self _⟩
  have ha := analyze_ok_iff.2 ⟨ds, hds, rfl⟩
  have hd := List.mem_append_right (duplicates misspelt.records) hmem
  obtain ⟨r, hr, ms, hspan, hsub, hcandidates, hactions, hchanged⟩ :=
    diagnostics_after_mnemonic_fix ha hd rfl
  have hms : ms = suggestions ['L', 'A', 'D'] := by
    rw [← QuickFix.proposed_of_names hcandidates, QuickFix.proposed_of_names rfl]
  obtain ⟨text, htext, h⟩ := hchanged .lda (by rw [hms]; decide)
  exact ⟨_, text, ha, hd, htext, h⟩

end LittleMan
