import LittleMan.Proofs.Findings

/-! How the analysis of records depends on their lines and on the labels. Diagnostics move along with
the lines of their records, and a new label takes away the diagnostics that ask for it. -/

namespace LittleMan

namespace Analysis

variable {labels : LabelTable} {r : Record} {d : Diagnostic} {ds : List Diagnostic}

theorem report_renumber (f : Nat → Nat) (k : Kind) (m : Text) (line : Nat) (w : Word) :
    report k m (f line) w = (report k m line w).renumber f := by
  simp [report, Diagnostic.renumber, Span.renumber, Word.span]

theorem inspectValue_renumber {t : List CodePoint} (f : Nat → Nat) :
    inspectValue t (d.renumber f) = (inspectValue t d).map (List.map (Diagnostic.renumber f)) := by
  cases hv : hasValue t with
  | error e => simp [inspectValue, hv, Except.map]
  | ok b => cases b <;> simp [inspectValue, hv, Except.map]

theorem inspectData_renumber (f : Nat → Nat) (labels : LabelTable) (line : Nat) (w : Word) :
    inspectData labels (f line) w =
      (inspectData labels line w).map (List.map (Diagnostic.renumber f)) := by
  simp only [inspectData, immediateOutOfRange, numericOutOfRange, report_renumber,
    inspectValue_renumber]
  cases addressing w.text <;> cases labels.contains w.text <;> rfl

theorem undefinedReference_renumber (f : Nat → Nat) (line : Nat) (w : Word) :
    undefinedReference (f line) w = (undefinedReference line w).renumber f := by
  simp only [undefinedReference, report_renumber]
  rfl

theorem inspectOperand_renumber (f : Nat → Nat) (labels : LabelTable) (m : List CodePoint) (line : Nat)
    (w : Word) :
    inspectOperand labels m (f line) w =
      (inspectOperand labels m line w).map (List.map (Diagnostic.renumber f)) := by
  cases ha : addressing w.text with
  | numeric =>
    simp only [inspectOperand_numeric ha, numericNeedsHash, numericOutOfRange, report_renumber]
    cases hasValue w.text with
    | error e => rfl
    | ok b => cases b <;> rfl
  | immediate =>
    simp only [inspectOperand_immediate ha, incompleteImmediate, immediateOutOfRange,
      report_renumber, inspectValue_renumber]
    split <;> rfl
  | indirect =>
    simp only [inspectOperand_indirect ha, undefinedReference_renumber]
    cases labels.contains (w.text.drop 1) <;> rfl
  | direct =>
    simp only [inspectOperand_direct ha, undefinedLabel, report_renumber]
    cases labels.contains w.text <;> rfl

theorem inspectRecord_renumber (f : Nat → Nat) (labels : LabelTable) (r : Record) :
    inspectRecord labels (r.renumber f) =
      (inspectRecord labels r).map (List.map (Diagnostic.renumber f)) := by
  have hm : inspectMnemonic (r.renumber f) = (inspectMnemonic r).map (Diagnostic.renumber f) := by
    simp only [inspectMnemonic, Record.renumber, report_renumber]
    cases Mnemonic.ofText? r.mnemonic.text <;> rfl
  have ha : inspectArgument labels (r.renumber f) =
      (inspectArgument labels r).map (List.map (Diagnostic.renumber f)) := by
    have hi : (r.renumber f).ignoresOperand = r.ignoresOperand := rfl
    have hd : (r.renumber f).isMnemonic .dat = r.isMnemonic .dat := rfl
    have hl : (r.renumber f).line = f r.line := rfl
    have ho : (r.renumber f).operand = r.operand := rfl
    rw [inspectArgument_eq, inspectArgument_eq, hi, hd, hl, ho]
    cases r.ignoresOperand with
    | true => rfl
    | false =>
      cases r.operand with
      | none =>
        cases r.isMnemonic .dat <;>
          simp [Except.map, missingOperand, report_renumber, Record.renumber]
      | some w =>
        cases r.isMnemonic .dat with
        | true => exact inspectData_renumber f labels r.line w
        | false => exact inspectOperand_renumber f labels r.mnemonic.text r.line w
  rw [inspectRecord, inspectRecord, hm, ha]
  cases inspectArgument labels r with
  | error e => rfl
  | ok as => simp [Except.map]

/-- Diagnostics that go away when the label is defined. -/
def asksFor (label : List CodePoint) (d : Diagnostic) : Bool :=
  (d.kind == .undefinedLabel || d.kind == .undefinedLabelReference ||
    d.kind == .datOperandInvalid) && d.token == label

def Gains (labels more : LabelTable) (label : List CodePoint) : Prop :=
  ∀ k, more.contains k = (k == label || labels.contains k)

theorem filter_inspectValue {t : List CodePoint} {label : List CodePoint} (hd : asksFor label d = false) :
    (inspectValue t d).map (List.filter (!asksFor label ·)) = inspectValue t d := by
  cases hv : hasValue t with
  | error e => simp [inspectValue, hv, Except.map]
  | ok b => cases b <;> simp [inspectValue, hv, Except.map, hd]

theorem filter_unless {label token : List CodePoint} {known : Bool}
    (hd : asksFor label d = (token == label)) :
    (if (token == label || known) then [] else [d]) =
      (if known then [] else [d]).filter (!asksFor label ·) := by
  cases known <;> cases ht : token == label <;> simp [hd, ht]

theorem inspectData_gain {more : LabelTable} {label : List CodePoint} (hg : Gains labels more label)
    (line : Nat) (w : Word) :
    inspectData more line w =
      (inspectData labels line w).map (List.filter (!asksFor label ·)) := by
  by_cases hn : addressing w.text = .numeric
  · simp only [inspectData, hn]
    exact (filter_inspectValue rfl).symm
  by_cases hm : addressing w.text = .immediate
  · simp only [inspectData, hm]
    exact (filter_inspectValue rfl).symm
  · rw [inspectData_label hn hm, inspectData_label hn hm, hg, filter_unless rfl]
    rfl

theorem inspectOperand_gain {more : LabelTable} {label : List CodePoint} (hg : Gains labels more label)
    (m : List CodePoint) (line : Nat) (w : Word) :
    inspectOperand more m line w =
      (inspectOperand labels m line w).map (List.filter (!asksFor label ·)) := by
  cases ha : addressing w.text with
  | numeric =>
    rw [inspectOperand_numeric ha, inspectOperand_numeric ha]
    cases hasValue w.text with
    | error e => rfl
    | ok b => cases b <;> rfl
  | immediate =>
    rw [inspectOperand_immediate ha, inspectOperand_immediate ha]
    split
    · rfl
    · exact (filter_inspectValue rfl).symm
  | indirect =>
    rw [inspectOperand_indirect ha, inspectOperand_indirect ha, hg, filter_unless rfl]
    rfl
  | direct =>
    rw [inspectOperand_direct ha, inspectOperand_direct ha, hg, filter_unless rfl]
    rfl

theorem inspectRecord_gain {more : LabelTable} {label : List CodePoint} (hg : Gains labels more label)
    (r : Record) :
    inspectRecord more r =
      (inspectRecord labels r).map (List.filter (!asksFor label ·)) := by
  have hm : (inspectMnemonic r).filter (!asksFor label ·) = inspectMnemonic r := by
    rw [inspectMnemonic]
    cases Mnemonic.ofText? r.mnemonic.text <;> rfl
  have ha : inspectArgument more r =
      (inspectArgument labels r).map (List.filter (!asksFor label ·)) := by
    rw [inspectArgument_eq, inspectArgument_eq]
    cases r.ignoresOperand with
    | true => rfl
    | false =>
      cases r.operand with
      | none => cases r.isMnemonic .dat <;> rfl
      | some w =>
        cases r.isMnemonic .dat with
        | true => exact inspectData_gain hg r.line w
        | false => exact inspectOperand_gain hg r.mnemonic.text r.line w
  rw [inspectRecord, inspectRecord, ha]
  cases inspectArgument labels r with
  | error e => rfl
  | ok as => simp only [Except.map, List.filter_append, hm]

theorem inspectRecord_congr {labels' : LabelTable}
    (h : ∀ k, labels'.contains k = labels.contains k) (r : Record) :
    inspectRecord labels' r = inspectRecord labels r := by
  have hc : labels'.contains = labels.contains := funext h
  simp only [inspectRecord, inspectArgument, inspectData, inspectOperand, hc]

theorem inspectRecords_cons_ok {rest : List Record} :
    inspectRecords labels (r :: rest) = .ok ds ↔
      ∃ xs ys, inspectRecord labels r = .ok xs ∧ inspectRecords labels rest = .ok ys ∧
        ds = xs ++ ys := by
  rw [inspectRecords]
  cases inspectRecord labels r with
  | error e => simp [bind, Except.bind]
  | ok xs =>
    cases inspectRecords labels rest with
    | error e => simp [bind, Except.bind]
    | ok ys => simp [bind, Except.bind, pure, Except.pure, eq_comm]

theorem inspectRecords_cons_error {rest : List Record} {e : Fault} :
    inspectRecords labels (r :: rest) = .error e ↔
      inspectRecord labels r = .error e ∨
        ∃ xs, inspectRecord labels r = .ok xs ∧ inspectRecords labels rest = .error e := by
  rw [inspectRecords]
  cases inspectRecord labels r with
  | error e' => simp [bind, Except.bind]
  | ok xs => cases inspectRecords labels rest <;> simp [bind, Except.bind, pure, Except.pure]

theorem inspectRecords_append_ok {rs rest : List Record} :
    inspectRecords labels (rs ++ rest) = .ok ds ↔
      ∃ xs ys, inspectRecords labels rs = .ok xs ∧ inspectRecords labels rest = .ok ys ∧
        ds = xs ++ ys := by
  induction rs generalizing ds with
  | nil => simp [inspectRecords]
  | cons r rs ih =>
    simp only [List.cons_append, inspectRecords_cons_ok, ih]
    constructor
    · rintro ⟨xs, _, hx, ⟨ys, zs, hy, hz, rfl⟩, rfl⟩
      exact ⟨xs ++ ys, zs, ⟨xs, ys, hx, hy, rfl⟩, hz, by rw [List.append_assoc]⟩
    · rintro ⟨_, zs, ⟨xs, ys, hx, hy, rfl⟩, hz, rfl⟩
      exact ⟨xs, ys ++ zs, hx, ⟨ys, zs, hy, hz, rfl⟩, by rw [List.append_assoc]⟩

/-- What holds of the analysis of each record holds of that of all, if it goes along with lists. -/
theorem inspectRecords_map {more : LabelTable} {f : Record → Record}
    {g : List Diagnostic → List Diagnostic} (hnil : g [] = [])
    (happend : ∀ xs ys, g (xs ++ ys) = g xs ++ g ys)
    (h : ∀ r, inspectRecord more (f r) = (inspectRecord labels r).map g) (rs : List Record) :
    inspectRecords more (rs.map f) = (inspectRecords labels rs).map g := by
  induction rs with
  | nil => simp [inspectRecords, Except.map, hnil]
  | cons r rs ih =>
    simp only [List.map_cons, inspectRecords, h, ih]
    cases inspectRecord labels r with
    | error e => rfl
    | ok xs =>
      cases inspectRecords labels rs with
      | error e => rfl
      | ok ys => simp [Except.map, bind, Except.bind, pure, Except.pure, happend]

theorem inspectRecords_renumber (f : Nat → Nat) (labels : LabelTable) (rs : List Record) :
    inspectRecords labels (rs.map (Record.renumber f)) =
      (inspectRecords labels rs).map (List.map (Diagnostic.renumber f)) :=
  inspectRecords_map rfl (fun _ _ => List.map_append) (inspectRecord_renumber f labels) rs

theorem inspectRecords_gain {more : LabelTable} {label : List CodePoint} (hg : Gains labels more label)
    (rs : List Record) :
    inspectRecords more rs =
      (inspectRecords labels rs).map (List.filter (!asksFor label ·)) := by
  have hh := inspectRecords_map (f := id) rfl List.filter_append
    (inspectRecord_gain hg) rs
  rwa [List.map_id] at hh

theorem inspectRecords_congr {labels' : LabelTable}
    (h : ∀ k, labels'.contains k = labels.contains k) (rs : List Record) :
    inspectRecords labels' rs = inspectRecords labels rs := by
  induction rs with
  | nil => rfl
  | cons r rs ih => simp only [inspectRecords, inspectRecord_congr h, ih]

end Analysis

end LittleMan
