import LittleMan.Proofs.MarkedWords
import LittleMan.Proofs.MnemonicFix
import LittleMan.Report

/-! The wording of diagnostics and of the titles of their fixes. Both quote words of the text, which hold no
line breaks, and so both stand on one line. -/

namespace LittleMan

open Analysis

/-- A text that stands on one line. -/
def Unbroken (t : Text) : Prop := .scalar '\n' ∉ t.toList

instance (t : Text) : Decidable (Unbroken t) := inferInstanceAs (Decidable (.scalar '\n' ∉ t.toList))

namespace Unbroken

theorem append {t u : Text} (ht : Unbroken t) (hu : Unbroken u) : Unbroken (t ++ u) := by
  intro h
  rw [Text.toList_append] at h
  exact (List.mem_append.1 h).elim ht hu

theorem ofList {t : List CodePoint} (h : .scalar '\n' ∉ t) : Unbroken (Text.ofList t) := h

theorem quote {before after : Text} {t : List CodePoint} (hb : Unbroken before) (ht : .scalar '\n' ∉ t)
    (ha : Unbroken after) : Unbroken (before ++ Text.ofList t ++ after) :=
  (hb.append (ofList ht)).append ha

end Unbroken

/-- What a diagnostic says, and the word that its fixes name. -/
structure Diagnostic.IsOneLine (d : Diagnostic) : Prop where
  message : Unbroken d.message.display
  token : .scalar '\n' ∉ d.token

variable {s : Source} {r : Record} {d : Diagnostic} {w : Word} {labels : LabelTable}

theorem newline_not_mem_word (hr : r ∈ s.records) (hw : w ∈ r.words) : .scalar '\n' ∉ w.text := by
  obtain ⟨line, -, hread⟩ := Source.mem_records_iff.1 hr
  intro hbreak
  exact absurd ((Statement.unbroken_of_read? hread hw).2 _ hbreak) (by decide)

theorem isOneLine_report {message : Text} (k : Kind) (line : Nat) (hm : Unbroken message)
    (hw : .scalar '\n' ∉ w.text) : (report k message line w).IsOneLine :=
  ⟨hm, hw⟩

theorem Analysis.Finding.isOneLine (h : Finding labels r d) (hr : r ∈ s.records) : d.IsOneLine := by
  have hmnemonic : .scalar '\n' ∉ r.mnemonic.text := newline_not_mem_word hr (by simp [Statement.words])
  have hoperand : ∀ {w : Word}, r.operand = some w → .scalar '\n' ∉ w.text := fun ho =>
    newline_not_mem_word hr (by simp [Statement.words, ho])
  cases h with
  | missingOperand =>
    exact isOneLine_report _ _ (.quote (by decide) hmnemonic (by decide)) hmnemonic
  | immediateOutOfRange _ ho => exact isOneLine_report _ _ (by decide) (hoperand ho)
  | numericOutOfRange _ ho => exact isOneLine_report _ _ (by decide) (hoperand ho)
  | numericNeedsHash _ _ ho =>
    exact isOneLine_report _ _ (.quote (by decide) (hoperand ho) (by decide)) (hoperand ho)
  | incompleteImmediate _ _ ho =>
    have hstart : Unbroken ("'" ++ Text.ofList r.mnemonic.text ++ "' operand '") :=
      .quote (by decide) hmnemonic (by decide)
    exact isOneLine_report _ _ (hstart.quote (hoperand ho) (by decide)) (hoperand ho)
  | undefinedReference _ _ ho =>
    have hlabel : CodePoint.scalar '\n' ∉ List.drop 1 _ := fun h => hoperand ho (List.mem_of_mem_drop h)
    exact ⟨.append (by decide) (.ofList hlabel), hlabel⟩
  | undefinedLabel _ _ ho =>
    exact isOneLine_report _ _ (.append (by decide) (.ofList (hoperand ho))) (hoperand ho)
  | datOperandInvalid _ ho => exact isOneLine_report _ _ (by decide) (hoperand ho)

theorem isOneLine_of_mem {a : Analysis} (ha : analyze s = .ok a) (hd : d ∈ a.diagnostics) :
    d.IsOneLine := by
  cases finds_of_mem ha hd with
  | @label r w hr hl =>
    have hlabel : .scalar '\n' ∉ w.text := newline_not_mem_word hr (by simp [Statement.words, hl])
    exact isOneLine_report _ _ (.append (by decide) (.ofList hlabel)) hlabel
  | @mnemonic r _ hr hm =>
    obtain ⟨-, rfl⟩ := eq_of_mem_inspectMnemonic hm
    have hmnemonic : .scalar '\n' ∉ r.mnemonic.text := newline_not_mem_word hr (by simp [Statement.words])
    exact ⟨.append (by decide) (.ofList hmnemonic), hmnemonic⟩
  | operand hr hf => exact hf.isOneLine hr

namespace QuickFix

variable {records : List Record}

theorem unbroken_createLabel {fix : Text × Edit} (hd : .scalar '\n' ∉ d.token)
    (h : createLabel s records labels d = some fix) : Unbroken fix.1 := by
  have hcode : Unbroken ("Create code label '" ++ Text.ofList d.token ++ "'") :=
    .quote (by decide) hd (by decide)
  have hdata : Unbroken ("Create data label '" ++ Text.ofList d.token ++ "'") :=
    .quote (by decide) hd (by decide)
  simp only [createLabel] at h
  split at h
  · cases h
  · split at h
    · split at h <;> obtain rfl := Option.some.inj h <;> exact hcode
    · obtain rfl := Option.some.inj h
      exact hdata

theorem unbroken_fixes {fs : List (Text × Edit)} {fix : Text × Edit} (hd : .scalar '\n' ∉ d.token)
    (h : fixes s records labels d = .ok fs) (hf : fix ∈ fs) : Unbroken fix.1 := by
  have hchosen : ∀ {chosen : Except Fault (List Mnemonic)},
      (chosen >>= fun ms => pure (ms.map fun m => (("Change to " ++ m.name : Text), replacement d m.text))) =
        .ok fs → Unbroken fix.1 := by
    intro chosen hmap
    cases chosen with
    | error e => cases hmap
    | ok ms =>
      obtain rfl := Except.ok.inj hmap
      obtain ⟨m, -, rfl⟩ := List.mem_map.1 hf
      cases m <;> exact (by decide : Unbroken "Change to ").append (by decide)
  cases hk : d.kind with
  | numericNeedsHash =>
    simp only [fixes, hk, Except.ok.injEq] at h
    obtain rfl := List.mem_singleton.1 (h ▸ hf)
    exact .append (by decide) (.ofList hd)
  | missingOperand =>
    simp only [fixes, hk, Except.ok.injEq] at h
    split at h
    · obtain rfl := List.mem_singleton.1 (h ▸ hf)
      exact (by decide : Unbroken "Add operand 0")
    · rw [← h] at hf
      cases hf
  | immediateOutOfRange | numericOutOfRange | incompleteImmediate =>
    simp only [fixes, hk, Except.ok.injEq] at h
    obtain rfl := List.mem_singleton.1 (h ▸ hf)
    exact (by decide : Unbroken "Replace with #0")
  | undefinedLabel | undefinedLabelReference =>
    simp only [fixes, hk, Except.ok.injEq] at h
    rw [← h] at hf
    exact unbroken_createLabel hd (Option.mem_toList.1 hf)
  | invalidInstruction =>
    simp only [fixes, hk] at h
    split at h <;> exact hchosen h
  | duplicateLabel | datOperandInvalid =>
    simp only [fixes, hk, Except.ok.injEq] at h
    rw [← h] at hf
    cases hf

end QuickFix

theorem unbroken_title {a : Analysis} {actions : List Action} {action : Action}
    (ha : analyze s = .ok a) (hd : d ∈ a.diagnostics)
    (h : proposeActions s (some labels) [d] (fun _ => true) = .ok actions) (hm : action ∈ actions) :
    Unbroken action.title := by
  obtain ⟨r, hr, w, habout⟩ := exists_isAbout ha hd
  have hown : QuickFix.isOwn d = true := by
    simp [QuickFix.isOwn, habout.source]
  rw [proposeActions_singleton_of_isOwn _ (not_isBlank_of_mem_records hr) hown, QuickFix.actions] at h
  cases hfixes : QuickFix.fixes s s.records ((some labels).getD (LabelTable.ofRecords s.records)) d with
  | error e =>
    rw [hfixes] at h
    cases h
  | ok fs =>
    rw [hfixes] at h
    obtain rfl := Except.ok.inj h
    obtain ⟨fix, hfix, rfl⟩ := List.mem_map.1 hm
    exact QuickFix.unbroken_fixes (isOneLine_of_mem ha hd).token hfixes hfix

end LittleMan
