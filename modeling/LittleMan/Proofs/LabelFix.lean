import LittleMan.Proofs.LabelCreation
import LittleMan.Proofs.Proposals
import LittleMan.Proofs.Reanalysis

/-! What the fix of an undefined label does to the records of a text and to its analysis. -/

namespace LittleMan

open Analysis QuickFix

variable {s : Source} {a : Analysis} {d : Diagnostic}

theorem Analysis.Finding.contains_token {labels : LabelTable} {r : Record}
    (h : Finding labels r d) (hu : d.isUndefined) : labels.contains d.token = false := by
  cases h with
  | undefinedReference _ _ _ _ hc => exact hc
  | undefinedLabel _ _ _ _ hc => exact hc
  | _ => rcases hu with hk | hk <;> cases hk

theorem proposeActions_undefined (ha : analyze s = .ok a) (hd : d ∈ a.diagnostics)
    (hu : d.isUndefined) :
    a.labels.contains d.token = false ∧
      proposeActions s none [d] (fun _ => true) =
        .ok ((createLabel s s.records a.labels d).toList.map fun p =>
          { title := p.1, uri := s.name, edits := [p.2], diagnostics := [d] }) := by
  have hdup : d.kind ≠ .duplicateLabel := by rcases hu with hk | hk <;> simp [hk]
  have hinv : d.kind ≠ .invalidInstruction := by rcases hu with hk | hk <;> simp [hk]
  obtain ⟨before, r, after, xs, ys, hrs, hf, -, -, -⟩ := exists_origin ha hd hdup hinv
  have hlabels := labels_eq_of_analyze ha
  refine ⟨hf.contains_token hu, ?_⟩
  rw [proposeActions_singleton (r := r) (by simp [hrs]) hf, ← hlabels]
  rcases hu with hk | hk <;> simp only [actions, fixes, hk, Except.map]

/-- The records of a text after a label is created: one more, that of the label, and those below it
`c` lines further down. -/
structure LabelCreated (s : Source) (d : Diagnostic) (text : List CodePoint) (before after : List Record)
    (new : Record) (c : Nat) : Prop where
  records_before : s.records = before ++ after
  records_after :
    (s.withText text).records = before ++ new :: after.map (Record.renumber (· + c))
  above : ∀ r ∈ before, r.line < new.line
  below : ∀ r ∈ after, new.line ≤ r.line
  label : new.label = some ⟨0, d.token⟩
  code : OnBranch s d → new.mnemonic.text = Mnemonic.hlt.text ∧ new.operand = none ∧
    (∀ r ∈ before, r.isMnemonic .dat = false) ∧ ∀ r ∈ after.head?, r.isMnemonic .dat = true
  data : ¬ OnBranch s d → new.mnemonic.text = Mnemonic.dat.text ∧
    (∃ col, new.operand = some ⟨col, ['0']⟩) ∧ after = []

theorem exists_labelCreated {labels : LabelTable} (hc : labels.contains d.token = false)
    (hid : isIdentifier d.token = true) (hm : Mnemonic.ofText? d.token = none) :
    ∃ title e text before after new c, createLabel s s.records labels d = some (title, e) ∧
      e.textAfter s = some text ∧ LabelCreated s d text before after new c ∧
      ∀ labels, inspectRecord labels new = .ok [] := by
  obtain ⟨title, e, text, k, lines, he, ht, hp, hcode, hdata⟩ := exists_putIn (s := s) hc hid
  obtain ⟨before, after, hs, habove, hbelow, hafter, hs'⟩ := hp.exists_records
  have hbranch := isBranchLine_iff s d
  cases hb : isBranchLine s.records d.span.line with
  | true =>
    obtain ⟨rfl, hnone, hfirst⟩ := hcode hb
    have hon := hbranch.1 hb
    simp only [readRecords, read?_codeLine hid hm] at hs'
    refine ⟨title, e, text, before, after, _, 2, he, ht,
      ⟨hs, hs', habove, hbelow, rfl, fun _ => ⟨rfl, rfl, fun r hr => ?_, ?_⟩,
        fun hn => absurd hon hn⟩, fun _ => rfl⟩
    · exact hnone r (by simp [hs, hr]) (habove r hr)
    · rwa [hafter]
  | false =>
    obtain ⟨rfl, hempty⟩ := hdata hb
    have hon : ¬ OnBranch s d := by simp [← hbranch, hb]
    simp only [readRecords, read?_dataLine hid hm] at hs'
    exact ⟨title, e, text, before, after, _, 1, he, ht,
      ⟨hs, hs', habove, hbelow, rfl, fun h => absurd h hon,
        fun _ => ⟨rfl, ⟨_, rfl⟩, hafter.trans hempty⟩⟩, fun _ => rfl⟩

theorem LabelCreated.records_renumber {text : List CodePoint} {before after : List Record} {new : Record}
    {c : Nat} (h : LabelCreated s d text before after new c) :
    (s.withText text).records = before.map (Record.renumber (pushDown new.line c)) ++
      new :: after.map (Record.renumber (pushDown new.line c)) := by
  rw [renumber_pushDown_of_lt h.above, renumber_pushDown_of_le h.below, h.records_after]

theorem LabelCreated.analyze {text : List CodePoint} {before after : List Record} {new : Record} {c : Nat}
    (h : LabelCreated s d text before after new c) (ha : analyze s = .ok a)
    (hc : a.labels.contains d.token = false)
    (hclean : ∀ labels, inspectRecord labels new = .ok []) :
    ∃ a', LittleMan.analyze (s.withText text) = .ok a' ∧ Gains a.labels a'.labels d.token ∧
      a'.diagnostics = (a.diagnostics.filter (!asksFor d.token ·)).map
        (Diagnostic.renumber (pushDown new.line c)) := by
  refine analyze_insert ha h.records_before h.records_renumber (fun name => ?_) hclean hc
  rw [Record.defines, h.label, Option.any_some]
  exact Bool.beq_comm

/-- Fixing an undefined label adds one record, at the first `DAT` for a branch and at the end for all
else, and takes away the diagnostics of that label and no others. -/
theorem exists_labelCreated_of_undefined (ha : analyze s = .ok a) (hd : d ∈ a.diagnostics)
    (hu : d.isUndefined) (hid : isIdentifier d.token = true)
    (hm : Mnemonic.ofText? d.token = none) :
    ∃ action e text a' before after new c,
      proposeActions s none [d] (fun _ => true) = .ok [action] ∧ action.edits = [e] ∧
      e.textAfter s = some text ∧ LabelCreated s d text before after new c ∧
      analyze (s.withText text) = .ok a' ∧
      a'.diagnostics = (a.diagnostics.filter (!asksFor d.token ·)).map
        (Diagnostic.renumber (pushDown new.line c)) := by
  obtain ⟨hc, hactions⟩ := proposeActions_undefined ha hd hu
  obtain ⟨title, e, text, before, after, new, c, he, ht, hcreated, hclean⟩ :=
    exists_labelCreated (s := s) hc hid hm
  obtain ⟨a', ha', -, hdiag⟩ := hcreated.analyze ha hc hclean
  rw [he] at hactions
  exact ⟨_, e, text, a', before, after, new, c, hactions, rfl, ht, hcreated, ha', hdiag⟩

def branchToMissing : Source := Source.named none (Text.toList "BRA END\r\nN DAT END")

theorem exists_labelCreated_branchToMissing :
    ∃ action e text a' before after new c,
      proposeActions branchToMissing none [undefinedLabel 0 ⟨4, ['E', 'N', 'D']⟩] (fun _ => true) =
        .ok [action] ∧ action.edits = [e] ∧ e.textAfter branchToMissing = some text ∧
      LabelCreated branchToMissing (undefinedLabel 0 ⟨4, ['E', 'N', 'D']⟩) text before after new c ∧
      analyze (branchToMissing.withText text) = .ok a' ∧
      a'.diagnostics = ([undefinedLabel 0 ⟨4, ['E', 'N', 'D']⟩,
        datOperandInvalid 1 ⟨6, ['E', 'N', 'D']⟩].filter (!asksFor ['E', 'N', 'D'] ·)).map
          (Diagnostic.renumber (pushDown new.line c)) :=
  exists_labelCreated_of_undefined (s := branchToMissing)
    (a := ⟨[undefinedLabel 0 ⟨4, ['E', 'N', 'D']⟩, datOperandInvalid 1 ⟨6, ['E', 'N', 'D']⟩],
      LabelTable.ofRecords branchToMissing.records, branchToMissing.records⟩)
    (by rfl) List.mem_cons_self (Or.inl rfl) (by decide) (by decide)

theorem exists_unlabelled_of_mnemonic {labels : LabelTable} {m : Mnemonic}
    (hc : labels.contains d.token = false) (hid : isIdentifier d.token = true)
    (hm : d.token = m.text) :
    ∃ title e text before after new f, createLabel s s.records labels d = some (title, e) ∧
      e.textAfter s = some text ∧ s.records = before ++ after ∧
      (s.withText text).records =
        before.map (Record.renumber f) ++ new :: after.map (Record.renumber f) ∧
      new.label = none ∧ ∀ labels, ∃ zs, inspectRecord labels new = .ok zs := by
  obtain ⟨title, e, text, k, lines, he, ht, hp, hcode, hdata⟩ := exists_putIn (s := s) hc hid
  obtain ⟨before, after, hs, habove, hbelow, -, hs'⟩ := hp.exists_records
  rw [← renumber_pushDown_of_lt (c := lines.length) habove,
    ← renumber_pushDown_of_le hbelow] at hs'
  cases hb : isBranchLine s.records d.span.line with
  | true =>
    obtain ⟨rfl, -⟩ := hcode hb
    simp only [hm, readRecords, read?_codeLine_mnemonic] at hs'
    exact ⟨title, e, text, before, after,
      ⟨⟨none, ⟨0, m.text⟩, some ⟨4, Mnemonic.hlt.text⟩⟩, k⟩, _, he, ht, hs, hs', rfl,
      fun labels => inspectRecord_word labels _ rfl (by decide)⟩
  | false =>
    obtain ⟨rfl, -⟩ := hdata hb
    simp only [hm, readRecords, read?_dataLine_mnemonic] at hs'
    exact ⟨title, e, text, before, after,
      ⟨⟨none, ⟨0, m.text⟩, some ⟨4, Mnemonic.dat.text⟩⟩, k⟩, _, he, ht, hs, hs', rfl,
      fun labels => inspectRecord_word labels _ rfl (by decide)⟩

theorem renumber_mem_insert {before after : List Record} {r : Record} (new : Record) (f : Nat → Nat)
    (h : r ∈ before ++ after) :
    r.renumber f ∈ before.map (Record.renumber f) ++ new :: after.map (Record.renumber f) := by
  rcases List.mem_append.1 h with h | h
  · exact List.mem_append_left _ (List.mem_map_of_mem h)
  · exact List.mem_append_right _ (List.mem_cons_of_mem _ (List.mem_map_of_mem h))

/-- Whether a fix defines its label. It does if the name is no mnemonic, and then no reference to it
is undefined any more; otherwise the same reference stays undefined on its line. -/
theorem defines_iff_of_undefined {actions : List Action} {action : Action} (ha : analyze s = .ok a)
    (hd : d ∈ a.diagnostics) (hu : d.isUndefined)
    (hactions : proposeActions s none [d] (fun _ => true) = .ok actions) (hact : action ∈ actions) :
    ∃ e text a' f, action.edits = [e] ∧ e.textAfter s = some text ∧
      analyze (s.withText text) = .ok a' ∧
      (∀ r ∈ s.records, r.renumber f ∈ (s.withText text).records) ∧
      ((LabelTable.ofRecords (s.withText text).records).contains d.token = true ↔
        Mnemonic.ofText? d.token = none) ∧
      (Mnemonic.ofText? d.token = none →
        ∀ d' ∈ a'.diagnostics, d'.isUndefined → d'.token ≠ d.token) ∧
      ((Mnemonic.ofText? d.token).isSome = true → d.renumber f ∈ a'.diagnostics) := by
  obtain ⟨hc, hproposed⟩ := proposeActions_undefined ha hd hu
  obtain rfl := Except.ok.inj (hproposed.symm.trans hactions)
  have hid : isIdentifier d.token = true := by
    by_contra hid
    rw [createLabel_eq_none (by simpa using hid)] at hact
    exact absurd hact List.not_mem_nil
  cases hm : Mnemonic.ofText? d.token with
  | none =>
    obtain ⟨title, e, text, before, after, new, c, he, ht, hcreated, hclean⟩ :=
      exists_labelCreated (s := s) hc hid hm
    obtain ⟨a', ha', hgain, hdiag⟩ := hcreated.analyze ha hc hclean
    have hcontains : a'.labels.contains d.token = true := by simp [hgain d.token]
    rw [labels_eq_of_analyze ha'] at hcontains
    obtain rfl : action = _ := by simpa [he] using hact
    refine ⟨e, text, a', pushDown new.line c, rfl, ht, ha', fun r hr => ?_, by simpa using hcontains,
      fun _ d' hd' hu' htok => ?_, by simp⟩
    · rw [hcreated.records_renumber]
      exact renumber_mem_insert new _ (hcreated.records_before ▸ hr)
    · rw [hdiag] at hd'
      obtain ⟨d'', hd'', rfl⟩ := List.mem_map.1 hd'
      have hasks := (List.mem_filter.1 hd'').2
      rcases hu' with hk | hk <;> simp_all [asksFor, Diagnostic.renumber]
  | some m =>
    have htext := (Mnemonic.ofText?_eq_some_iff.1 hm)
    obtain ⟨title, e, text, before, after, new, f, he, ht, hs, hs', hnew, hrec⟩ :=
      exists_unlabelled_of_mnemonic (s := s) hc hid htext.symm
    obtain ⟨a', ha', hsame, hkeep⟩ := analyze_insert_unlabelled ha hs hs' hnew hrec
    have hcontains : a'.labels.contains d.token = false := by rw [hsame, hc]
    rw [labels_eq_of_analyze ha'] at hcontains
    obtain rfl : action = _ := by simpa [he] using hact
    refine ⟨e, text, a', f, rfl, ht, ha', fun r hr => ?_, by simpa using hcontains, by simp,
      fun _ => hkeep d hd⟩
    rw [hs']
    exact renumber_mem_insert new f (hs ▸ hr)

def loadAdd : Source := Source.named none (Text.toList "LDA ADD")

theorem defines_iff_loadAdd :
    ∃ action e text a' f,
      proposeActions loadAdd none [undefinedLabel 0 ⟨4, ['A', 'D', 'D']⟩] (fun _ => true) =
        .ok [action] ∧ action.edits = [e] ∧ e.textAfter loadAdd = some text ∧
      analyze (loadAdd.withText text) = .ok a' ∧
      (∀ r ∈ loadAdd.records, r.renumber f ∈ (loadAdd.withText text).records) ∧
      ((LabelTable.ofRecords (loadAdd.withText text).records).contains ['A', 'D', 'D'] = true ↔
        Mnemonic.ofText? ['A', 'D', 'D'] = none) ∧
      (Mnemonic.ofText? ['A', 'D', 'D'] = none →
        ∀ d' ∈ a'.diagnostics, d'.isUndefined → d'.token ≠ [.scalar 'A', .scalar 'D', .scalar 'D']) ∧
      ((Mnemonic.ofText? ['A', 'D', 'D']).isSome = true →
        (undefinedLabel 0 ⟨4, ['A', 'D', 'D']⟩).renumber f ∈ a'.diagnostics) := by
  obtain ⟨e, text, a', f, h⟩ := defines_iff_of_undefined (s := loadAdd)
    (a := ⟨[undefinedLabel 0 ⟨4, ['A', 'D', 'D']⟩], LabelTable.ofRecords loadAdd.records,
      loadAdd.records⟩)
    (by rfl) (List.mem_singleton_self _) (Or.inl rfl) rfl (List.mem_singleton_self _)
  exact ⟨_, e, text, a', f, rfl, h⟩

/-- The line put in for `ADD` is an instruction of its own, and `ADD` stays undefined. -/
theorem undefined_after_fix_loadAdd :
    ∃ action a a',
      analyze loadAdd = .ok a ∧ undefinedLabel 0 ⟨4, ['A', 'D', 'D']⟩ ∈ a.diagnostics ∧
      proposeActions loadAdd none [undefinedLabel 0 ⟨4, ['A', 'D', 'D']⟩] (fun _ => true) =
        .ok [action] ∧
      action.edits.map (·.textAfter loadAdd) = [some (Text.toList "LDA ADD\nADD\tDAT 0")] ∧
      analyze (loadAdd.withText (Text.toList "LDA ADD\nADD\tDAT 0")) = .ok a' ∧
      a'.labels.contains ['A', 'D', 'D'] = false ∧
      undefinedLabel 0 ⟨4, ['A', 'D', 'D']⟩ ∈ a'.diagnostics := by
  refine ⟨_, ⟨[undefinedLabel 0 ⟨4, ['A', 'D', 'D']⟩], .empty, loadAdd.records⟩,
    ⟨[undefinedLabel 0 ⟨4, ['A', 'D', 'D']⟩, undefinedLabel 1 ⟨4, ['D', 'A', 'T']⟩], .empty,
      (loadAdd.withText (Text.toList "LDA ADD\nADD\tDAT 0")).records⟩,
    rfl, List.mem_cons_self, rfl, rfl, rfl, rfl, List.mem_cons_self⟩

end LittleMan
