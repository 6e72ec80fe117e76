import LittleMan.Proofs.Addressing
import LittleMan.Proofs.Places
import LittleMan.Proofs.Proposals
import LittleMan.Proofs.WordReplacement

/-! The fixes of operands. Each writes an immediate value in the place of one operand. No label and no
other operand is read otherwise, so that one diagnostic goes away and the others stay as they are. -/

namespace LittleMan

open Analysis

/-- The diagnostics that are fixed by another operand. -/
def Diagnostic.isOperandFault (d : Diagnostic) : Prop :=
  d.kind = .numericNeedsHash ∨ d.kind = .numericOutOfRange ∨ d.kind = .immediateOutOfRange ∨
    d.kind = .incompleteImmediate

/-- A record with another operand in the place of its own. -/
def Record.withOperand (r : Record) (col : Nat) (v : List CodePoint) : Record :=
  { r with operand := some ⟨col, v⟩ }

variable {s s' : Source} {a : Analysis} {d : Diagnostic} {r : Record} {w : Word} {v : List CodePoint}
  {labels : LabelTable}

theorem isFiller_hash {t : List CodePoint} (h : ∀ c ∈ t, isWord c = true) :
    Statement.IsFiller (.scalar '#' :: t) := by
  refine ⟨by simp, fun c hc => ?_, fun hm => ?_, by simp [CodePoint.isUpper]⟩
  · rcases List.mem_cons.1 hc with rfl | hc
    · decide
    · exact not_isSpace_of_isWord (h c hc)
  · have hw := h (.scalar ';') (by simpa using hm)
    exact absurd hw (by decide)

theorem isWord_of_isDecimal {t : List CodePoint} (h : Numeral.isDecimal t = true) :
    ∀ c ∈ t, isWord c = true := by
  intro c hc
  simp only [Numeral.isDecimal, Bool.and_eq_true, List.all_eq_true] at h
  simp [isWord, CodePoint.isAlphanum, h.2 c hc]

theorem inspectArgument_immediate {t : List CodePoint} (hi : r.ignoresOperand = false) (col : Nat)
    (hne : t ≠ []) (hv : hasValue t = .ok true) :
    inspectArgument labels (r.withOperand col (.scalar '#' :: t)) = .ok [] := by
  have hclean : ∀ d, inspectValue t d = .ok [] := by simp [inspectValue, hv, Except.map]
  have hlen : ¬ (.scalar '#' :: t).length ≤ 1 := by simpa using hne
  have hi' : (r.withOperand col (.scalar '#' :: t)).ignoresOperand = false := hi
  have hform : addressing (.scalar '#' :: t) = .immediate := addressing_eq_immediate_iff.2 ⟨t, rfl⟩
  rw [inspectArgument_eq, hi', if_neg Bool.false_ne_true]
  show (if _ then inspectData labels r.line ⟨col, .scalar '#' :: t⟩
    else inspectOperand labels r.mnemonic.text r.line ⟨col, .scalar '#' :: t⟩) = _
  rw [inspectOperand_immediate hform, if_neg hlen]
  simp only [inspectData, hform, List.drop_succ_cons, List.drop_zero, hclean, ite_self]

/-- The edit that replaces an operand changes the operand of its record and nothing else. -/
theorem exists_text_replace_operand {before after : List Record}
    (hs : s.records = before ++ r :: after) (ho : r.operand = some w)
    (hv : Statement.IsFiller v) :
    ∃ text, (Edit.replace (w.span r.line) v).textAfter s = some text ∧
      (s.withText text).records = before ++ r.withOperand w.col v :: after := by
  have hvr : .scalar '\r' ∉ v := fun hm => absurd (hv.not_space (.scalar '\r') hm) (by decide)
  have hvn : .scalar '\n' ∉ v := fun hm => absurd (hv.not_space (.scalar '\n') hm) (by decide)
  refine exists_text_replace_word hs (fun line hread => ?_) rfl hv.ne_nil hvr hvn
  obtain ⟨head, tail, hline, hcol, hplace⟩ := Statement.exists_operand_place hread ho
  exact ⟨head, tail, hline, hcol, hplace v hv⟩

/-- The operand that a fix writes: it is read as such, and has no diagnostic of its own. -/
theorem Analysis.Finding.exists_operand (hf : Finding labels r d) (hk : d.isOperandFault)
    (s : Source) (table : LabelTable) :
    ∃ w v title, r.operand = some w ∧ Statement.IsFiller v ∧
      QuickFix.fixes s s.records table d = .ok [(title, Edit.replace (w.span r.line) v)] ∧
      ∀ labels, inspectArgument labels (r.withOperand w.col v) = .ok [] := by
  have hdigit : isWord (.scalar '0') = true := by decide
  have hzero : Statement.IsFiller ['#', '0'] :=
    isFiller_hash fun c hc => List.mem_singleton.1 hc ▸ hdigit
  cases hf with
  | @immediateOutOfRange w hi ho ha hl hv =>
    exact ⟨w, [.scalar '#', .scalar '0'], _, ho, hzero, rfl,
      fun labels => inspectArgument_immediate hi w.col (by simp) rfl⟩
  | @numericOutOfRange w hi ho ha hv =>
    exact ⟨w, [.scalar '#', .scalar '0'], _, ho, hzero, rfl,
      fun labels => inspectArgument_immediate hi w.col (by simp) rfl⟩
  | @incompleteImmediate w hi hd ho ha hl =>
    exact ⟨w, [.scalar '#', .scalar '0'], _, ho, hzero, rfl,
      fun labels => inspectArgument_immediate hi w.col (by simp) rfl⟩
  | @numericNeedsHash w hi hd ho ha hv =>
    have hdec := addressing_eq_numeric_iff.1 ha
    have hne : w.text ≠ [] := by
      intro hw
      simp [Numeral.isDecimal, hw] at hdec
    exact ⟨w, .scalar '#' :: w.text, _, ho, isFiller_hash (isWord_of_isDecimal hdec), rfl,
      fun labels => inspectArgument_immediate hi w.col hne hv⟩
  | _ => rcases hk with hk | hk | hk | hk <;> cases hk

theorem analyze_replace_operand {before after : List Record} {xs ys : List Diagnostic} {col : Nat}
    (ha : analyze s = .ok a) (hs : s.records = before ++ r :: after)
    (hs' : s'.records = before ++ r.withOperand col v :: after)
    (hx : inspectRecords a.labels before = .ok xs) (hy : inspectRecords a.labels after = .ok ys)
    (hclean : ∀ labels, inspectArgument labels (r.withOperand col v) = .ok []) :
    ∃ a', analyze s' = .ok a' ∧
      a'.diagnostics = duplicates s.records ++ (xs ++ (inspectMnemonic r ++ ys)) := by
  have hnew : inspectRecord a.labels (r.withOperand col v) = .ok (inspectMnemonic r) := by
    rw [inspectRecord, hclean]
    simp [Except.map, inspectMnemonic, Record.withOperand]
  obtain ⟨a', ha', -, hdiag⟩ := analyze_replace_record ha hs hs' rfl rfl hx hnew hy
  exact ⟨a', ha', hdiag⟩

theorem not_mem_others {before after : List Record} {xs ys : List Diagnostic}
    (hs : s.records = before ++ r :: after) (hf : Finding labels r d) (hk : d.isOperandFault)
    (hx : inspectRecords labels before = .ok xs) (hy : inspectRecords labels after = .ok ys) :
    d ∉ duplicates s.records ++ (xs ++ inspectMnemonic r) ∧ d ∉ ys := by
  have hp := s.pairwise_line_records
  rw [hs, List.pairwise_append, List.pairwise_cons] at hp
  have hline := hf.line_eq
  constructor
  · intro hm
    rcases List.mem_append.1 hm with hm | hm
    · have hdup := kind_of_mem_duplicates hm
      simp [Diagnostic.isOperandFault, hdup] at hk
    rcases List.mem_append.1 hm with hm | hm
    · obtain ⟨x, hx', hl⟩ := exists_line_of_mem hx hm
      have hlt := hp.2.2 x hx' r List.mem_cons_self
      omega
    · have hinv := kind_of_mem_inspectMnemonic hm
      simp [Diagnostic.isOperandFault, hinv] at hk
  · intro hm
    obtain ⟨x, hx', hl⟩ := exists_line_of_mem hy hm
    have hlt := hp.2.1.1 x hx'
    omega

/-- Fixing an operand takes away the one diagnostic that asked for it. -/
theorem diagnostics_after_operand_fix (ha : analyze s = .ok a) (hd : d ∈ a.diagnostics)
    (hk : d.isOperandFault) :
    ∃ action e text a' pre post, proposeActions s none [d] (fun _ => true) = .ok [action] ∧
      action.edits = [e] ∧ e.textAfter s = some text ∧ analyze (s.withText text) = .ok a' ∧
      a.diagnostics = pre ++ d :: post ∧ d ∉ pre ∧ d ∉ post ∧ a'.diagnostics = pre ++ post := by
  have hdup : d.kind ≠ .duplicateLabel := by rcases hk with hk | hk | hk | hk <;> simp [hk]
  have hinv : d.kind ≠ .invalidInstruction := by rcases hk with hk | hk | hk | hk <;> simp [hk]
  obtain ⟨before, r, after, xs, ys, hs, hf, hx, hy, hdiag⟩ := exists_origin ha hd hdup hinv
  obtain ⟨w, v, title, ho, hv, hfix, hclean⟩ :=
    hf.exists_operand hk s (LabelTable.ofRecords s.records)
  obtain ⟨text, htext, hs'⟩ := exists_text_replace_operand hs ho hv
  obtain ⟨a', ha', hdiag'⟩ := analyze_replace_operand ha hs hs' hx hy hclean
  obtain ⟨hpre, hpost⟩ := not_mem_others hs hf hk hx hy
  have hactions := proposeActions_singleton (s := s) (r := r) (by simp [hs]) hf
  rw [QuickFix.actions, hfix] at hactions
  refine ⟨_, Edit.replace (w.span r.line) v, text, a', _, ys, hactions, rfl, htext, ha', ?_, hpre,
    hpost, ?_⟩
  · simp only [hdiag, List.append_assoc]
  · simp only [hdiag', List.append_assoc]

def unknownOfNumber : Source := Source.named none (Text.toList "X XYZ 5 ;\rX DAT")

theorem diagnostics_after_fix_unknownOfNumber :
    ∃ a action e text a' pre post, analyze unknownOfNumber = .ok a ∧
      proposeActions unknownOfNumber none [numericNeedsHash 0 ⟨6, ['5']⟩] (fun _ => true) =
        .ok [action] ∧ action.edits = [e] ∧ e.textAfter unknownOfNumber = some text ∧
      analyze (unknownOfNumber.withText text) = .ok a' ∧
      a.diagnostics = pre ++ numericNeedsHash 0 ⟨6, ['5']⟩ :: post ∧
      numericNeedsHash 0 ⟨6, ['5']⟩ ∉ pre ∧ numericNeedsHash 0 ⟨6, ['5']⟩ ∉ post ∧
      a'.diagnostics = pre ++ post := by
  obtain ⟨ds, hds, hmem⟩ : ∃ ds, inspectRecords (LabelTable.ofRecords unknownOfNumber.records)
      unknownOfNumber.records = .ok ds ∧ numericNeedsHash 0 ⟨6, ['5']⟩ ∈ ds := by
    refine ⟨inspectMnemonic ⟨⟨none, ⟨2, ['X', 'Y', 'Z']⟩, none⟩, 0⟩ ++
      [numericNeedsHash 0 ⟨6, ['5']⟩], by rfl, ?_⟩
    exact List.mem_append_right _ (List.mem_singleton_self _)
  have ha := analyze_ok_iff.2 ⟨ds, hds, rfl⟩
  obtain ⟨action, e, text, a', pre, post, h⟩ :=
    diagnostics_after_operand_fix ha (List.mem_append_right _ hmem) (Or.inl rfl)
  exact ⟨_, action, e, text, a', pre, post, ha, h⟩

end LittleMan
