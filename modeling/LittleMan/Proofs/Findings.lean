import LittleMan.Proofs.Numbering

/-! What the analysis reports about a record: at most one diagnostic of its operand, after the one of
its mnemonic. `Finding` says for which operands that is, and which. -/

namespace LittleMan

/-- The record has a mnemonic whose operand is ignored. -/
def Record.ignoresOperand (r : Record) : Bool :=
  (Mnemonic.ofText? r.mnemonic.text).any Mnemonic.ignoresOperand

namespace Analysis

def missingOperand (r : Record) : Diagnostic :=
  report .missingOperand ("Instruction " ++ Text.ofList r.mnemonic.text ++
    " requires an operand") r.line r.mnemonic

def numericNeedsHash (line : Nat) (w : Word) : Diagnostic :=
  report .numericNeedsHash ("Numeric value " ++ Text.ofList w.text ++
    " must be prefixed with '#' for immediate addressing") line w

def incompleteImmediate (mnemonic : List CodePoint) (line : Nat) (w : Word) : Diagnostic :=
  report .incompleteImmediate ("'" ++ Text.ofList mnemonic ++ "' operand '" ++
    Text.ofList w.text ++ "' is incomplete. A value must follow '#'") line w

def undefinedReference (line : Nat) (w : Word) : Diagnostic :=
  { report .undefinedLabelReference ("Undefined label reference: " ++
      Text.ofList (w.text.drop 1)) line w with token := w.text.drop 1 }

def undefinedLabel (line : Nat) (w : Word) : Diagnostic :=
  report .undefinedLabel ("Undefined label: " ++ Text.ofList w.text) line w

def datOperandInvalid (line : Nat) (w : Word) : Diagnostic :=
  report .datOperandInvalid
    "DAT operand must be a number, a label, or an immediate value prefixed with '#'" line w

/-- The diagnostic of the operand of a record. -/
inductive Finding (labels : LabelTable) (r : Record) : Diagnostic → Prop
  | missingOperand (hi : r.ignoresOperand = false) (hd : r.isMnemonic .dat = false)
      (ho : r.operand = none) : Finding labels r (missingOperand r)
  | immediateOutOfRange {w : Word} (hi : r.ignoresOperand = false) (ho : r.operand = some w)
      (ha : addressing w.text = .immediate) (hl : r.isMnemonic .dat = false → 1 < w.text.length)
      (hv : hasValue (w.text.drop 1) = .ok false) :
      Finding labels r (immediateOutOfRange r.line w)
  | numericOutOfRange {w : Word} (hi : r.ignoresOperand = false) (ho : r.operand = some w)
      (ha : addressing w.text = .numeric) (hv : hasValue w.text = .ok false) :
      Finding labels r (numericOutOfRange r.line w)
  | numericNeedsHash {w : Word} (hi : r.ignoresOperand = false) (hd : r.isMnemonic .dat = false)
      (ho : r.operand = some w) (ha : addressing w.text = .numeric)
      (hv : hasValue w.text = .ok true) : Finding labels r (numericNeedsHash r.line w)
  | incompleteImmediate {w : Word} (hi : r.ignoresOperand = false)
      (hd : r.isMnemonic .dat = false) (ho : r.operand = some w)
      (ha : addressing w.text = .immediate) (hl : w.text.length ≤ 1) :
      Finding labels r (incompleteImmediate r.mnemonic.text r.line w)
  | undefinedReference {w : Word} (hi : r.ignoresOperand = false)
      (hd : r.isMnemonic .dat = false) (ho : r.operand = some w)
      (ha : addressing w.text = .indirect) (hc : labels.contains (w.text.drop 1) = false) :
      Finding labels r (undefinedReference r.line w)
  | undefinedLabel {w : Word} (hi : r.ignoresOperand = false) (hd : r.isMnemonic .dat = false)
      (ho : r.operand = some w) (ha : addressing w.text = .direct)
      (hc : labels.contains w.text = false) : Finding labels r (undefinedLabel r.line w)
  | datOperandInvalid {w : Word} (hd : r.isMnemonic .dat = true) (ho : r.operand = some w)
      (hn : addressing w.text ≠ .numeric) (hm : addressing w.text ≠ .immediate)
      (hc : labels.contains w.text = false) : Finding labels r (datOperandInvalid r.line w)

theorem isMnemonic_iff {r : Record} {m : Mnemonic} :
    r.isMnemonic m = true ↔ Mnemonic.ofText? r.mnemonic.text = some m := by
  rw [Statement.isMnemonic, beq_iff_eq, Mnemonic.ofText?_eq_some_iff, eq_comm]

theorem ignoresOperand_eq_false_iff {r : Record} :
    r.ignoresOperand = false ↔ ∀ m ∈ [Mnemonic.inp, .out, .hlt], r.mnemonic.text ≠ m.text := by
  have hof : ∀ m, r.mnemonic.text = m.text ↔ Mnemonic.ofText? r.mnemonic.text = some m := by
    intro m
    rw [Mnemonic.ofText?_eq_some_iff, eq_comm]
  simp only [Record.ignoresOperand, ne_eq, hof]
  cases Mnemonic.ofText? r.mnemonic.text with
  | none => simp
  | some m => cases m <;> simp [Mnemonic.ignoresOperand]

/-- The analysis of an operand in three steps: whether it counts, whether it is there, and whether it
is that of `DAT`. -/
theorem inspectArgument_eq (labels : LabelTable) (r : Record) :
    inspectArgument labels r =
      if r.ignoresOperand then .ok []
      else match r.operand with
        | none => .ok (if r.isMnemonic .dat then [] else [missingOperand r])
        | some w =>
          if r.isMnemonic .dat then inspectData labels r.line w
          else inspectOperand labels r.mnemonic.text r.line w := by
  cases hm : Mnemonic.ofText? r.mnemonic.text with
  | none =>
    have hd : r.isMnemonic .dat = false := by
      rw [Bool.eq_false_iff, ne_eq, isMnemonic_iff, hm]
      simp
    cases ho : r.operand <;>
      simp [inspectArgument, Record.ignoresOperand, hm, ho, hd, missingOperand]
  | some m =>
    have hd : r.isMnemonic .dat = decide (m = .dat) := by
      rw [Bool.eq_iff_iff, isMnemonic_iff, hm]
      simp
    cases m <;> cases ho : r.operand <;>
      simp [inspectArgument, Record.ignoresOperand, hm, ho, hd, missingOperand,
        Mnemonic.ignoresOperand]

theorem inspectData_label {labels : LabelTable} {line : Nat} {w : Word}
    (hn : addressing w.text ≠ .numeric) (hm : addressing w.text ≠ .immediate) :
    inspectData labels line w =
      .ok (if labels.contains w.text then [] else [datOperandInvalid line w]) := by
  cases ha : addressing w.text with
  | numeric => exact absurd ha hn
  | immediate => exact absurd ha hm
  | indirect => simp only [inspectData, ha]; rfl
  | direct => simp only [inspectData, ha]; rfl

theorem inspectOperand_numeric {labels : LabelTable} {m : List CodePoint} {line : Nat} {w : Word}
    (ha : addressing w.text = .numeric) :
    inspectOperand labels m line w = (hasValue w.text).map fun ok =>
      if ok then [numericNeedsHash line w] else [numericOutOfRange line w] := by
  simp only [inspectOperand, ha]
  rfl

theorem inspectOperand_immediate {labels : LabelTable} {m : List CodePoint} {line : Nat} {w : Word}
    (ha : addressing w.text = .immediate) :
    inspectOperand labels m line w =
      if w.text.length ≤ 1 then .ok [incompleteImmediate m line w]
      else inspectValue (w.text.drop 1) (immediateOutOfRange line w) := by
  simp only [inspectOperand, ha]
  rfl

theorem inspectOperand_indirect {labels : LabelTable} {m : List CodePoint} {line : Nat} {w : Word}
    (ha : addressing w.text = .indirect) :
    inspectOperand labels m line w =
      .ok (if labels.contains (w.text.drop 1) then [] else [undefinedReference line w]) := by
  simp only [inspectOperand, ha]
  rfl

theorem inspectOperand_direct {labels : LabelTable} {m : List CodePoint} {line : Nat} {w : Word}
    (ha : addressing w.text = .direct) :
    inspectOperand labels m line w =
      .ok (if labels.contains w.text then [] else [undefinedLabel line w]) := by
  simp only [inspectOperand, ha]
  rfl

variable {labels : LabelTable} {r : Record} {d : Diagnostic} {ds : List Diagnostic}

theorem inspectValue_ok {t : List CodePoint} (h : inspectValue t d = .ok ds) :
    ds = [] ∨ ds = [d] ∧ hasValue t = .ok false := by
  cases hv : hasValue t with
  | error e => simp [inspectValue, hv, Except.map] at h
  | ok b => cases b <;> simp_all [inspectValue, Except.map]

theorem unless_ok {b : Bool} (h : Except.ok (ε := Fault) (if b then [] else [d]) = .ok ds) :
    ds = [] ∨ ds = [d] ∧ b = false := by
  cases b <;> simp_all

theorem inspectData_ok {w : Word} (hi : r.ignoresOperand = false) (hd : r.isMnemonic .dat = true)
    (ho : r.operand = some w) (h : inspectData labels r.line w = .ok ds) :
    ds = [] ∨ ∃ d, ds = [d] ∧ Finding labels r d := by
  by_cases hn : addressing w.text = .numeric
  · simp only [inspectData, hn] at h
    rcases inspectValue_ok h with rfl | ⟨rfl, hv⟩
    · exact Or.inl rfl
    · exact Or.inr ⟨_, rfl, .numericOutOfRange hi ho hn hv⟩
  by_cases hm : addressing w.text = .immediate
  · simp only [inspectData, hm] at h
    rcases inspectValue_ok h with rfl | ⟨rfl, hv⟩
    · exact Or.inl rfl
    · exact Or.inr ⟨_, rfl, .immediateOutOfRange hi ho hm (by simp [hd]) hv⟩
  · rw [inspectData_label hn hm] at h
    rcases unless_ok h with rfl | ⟨rfl, hc⟩
    · exact Or.inl rfl
    · exact Or.inr ⟨_, rfl, .datOperandInvalid hd ho hn hm hc⟩

theorem inspectOperand_ok {w : Word} (hi : r.ignoresOperand = false)
    (hd : r.isMnemonic .dat = false) (ho : r.operand = some w)
    (h : inspectOperand labels r.mnemonic.text r.line w = .ok ds) :
    ds = [] ∨ ∃ d, ds = [d] ∧ Finding labels r d := by
  cases ha : addressing w.text with
  | numeric =>
    rw [inspectOperand_numeric ha] at h
    cases hv : hasValue w.text with
    | error e => simp [hv, Except.map] at h
    | ok b =>
      cases b with
      | true =>
        obtain rfl : [numericNeedsHash r.line w] = ds := by simpa [hv, Except.map] using h
        exact Or.inr ⟨_, rfl, .numericNeedsHash hi hd ho ha hv⟩
      | false =>
        obtain rfl : [numericOutOfRange r.line w] = ds := by simpa [hv, Except.map] using h
        exact Or.inr ⟨_, rfl, .numericOutOfRange hi ho ha hv⟩
  | immediate =>
    rw [inspectOperand_immediate ha] at h
    split at h
    · next hl =>
      obtain rfl := Except.ok.inj h
      exact Or.inr ⟨_, rfl, .incompleteImmediate hi hd ho ha hl⟩
    · next hl =>
      rcases inspectValue_ok h with rfl | ⟨rfl, hv⟩
      · exact Or.inl rfl
      · exact Or.inr ⟨_, rfl, .immediateOutOfRange hi ho ha (fun _ => by omega) hv⟩
  | indirect =>
    rw [inspectOperand_indirect ha] at h
    rcases unless_ok h with rfl | ⟨rfl, hc⟩
    · exact Or.inl rfl
    · exact Or.inr ⟨_, rfl, .undefinedReference hi hd ho ha hc⟩
  | direct =>
    rw [inspectOperand_direct ha] at h
    rcases unless_ok h with rfl | ⟨rfl, hc⟩
    · exact Or.inl rfl
    · exact Or.inr ⟨_, rfl, .undefinedLabel hi hd ho ha hc⟩

theorem inspectArgument_ok (h : inspectArgument labels r = .ok ds) :
    ds = [] ∨ ∃ d, ds = [d] ∧ Finding labels r d := by
  rw [inspectArgument_eq] at h
  cases hi : r.ignoresOperand with
  | true => simp_all
  | false =>
    cases ho : r.operand with
    | none =>
      simp only [hi, ho, Bool.false_eq_true, if_false] at h
      rcases unless_ok h with rfl | ⟨rfl, hd⟩
      · exact Or.inl rfl
      · exact Or.inr ⟨_, rfl, .missingOperand hi hd ho⟩
    | some w =>
      cases hd : r.isMnemonic .dat with
      | true => exact inspectData_ok hi hd ho (by simpa [hi, ho, hd] using h)
      | false => exact inspectOperand_ok hi hd ho (by simpa [hi, ho, hd] using h)

theorem hasValue_error {t : List CodePoint} {e : Fault} (h : hasValue t = .error e) :
    e = .tooManyDigits := by
  rw [hasValue] at h
  split at h <;> cases h
  rfl

theorem inspectValue_error {t : List CodePoint} {e : Fault} (h : inspectValue t d = .error e) :
    e = .tooManyDigits := by
  cases hv : hasValue t with
  | error e' =>
    obtain rfl : e' = e := by simpa [inspectValue, hv, Except.map] using h
    exact hasValue_error hv
  | ok b => simp [inspectValue, hv, Except.map] at h

theorem inspectArgument_error {e : Fault} (h : inspectArgument labels r = .error e) :
    e = .tooManyDigits := by
  rw [inspectArgument_eq] at h
  split at h
  · cases h
  · split at h
    · cases h
    · next w _ =>
      split at h
      · rw [inspectData] at h
        split at h
        · exact inspectValue_error h
        · exact inspectValue_error h
        · cases h
      · cases ha : addressing w.text with
        | numeric =>
          rw [inspectOperand_numeric ha] at h
          cases hv : hasValue w.text with
          | error e' =>
            obtain rfl : e' = e := by simpa [hv, Except.map] using h
            exact hasValue_error hv
          | ok b => simp [hv, Except.map] at h
        | immediate =>
          rw [inspectOperand_immediate ha] at h
          split at h
          · cases h
          · exact inspectValue_error h
        | indirect =>
          rw [inspectOperand_indirect ha] at h
          cases h
        | direct =>
          rw [inspectOperand_direct ha] at h
          cases h

end Analysis

end LittleMan
