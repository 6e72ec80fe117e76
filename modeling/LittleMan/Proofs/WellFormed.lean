import LittleMan.Proofs.Labels
import LittleMan.Proofs.Notation
import LittleMan.Proofs.Words

/-! Well-formed programs, told from the records of a text without its analysis: every label is defined
once, and every record has a mnemonic and an operand that it takes. A text that can be analysed has no
diagnostics just if it is such a program. -/

namespace LittleMan

open Analysis

/-- A numeral of a value of 64 bits. -/
def Numeral.IsValue (t : List CodePoint) : Prop := ∃ n, Denotes t n ∧ n < 2 ^ 64

/-- The same in base ten. -/
def Numeral.IsDecimalValue (t : List CodePoint) : Prop := ∃ n, HasPlaces 10 t n ∧ n < 2 ^ 64

def IsImmediate (t : List CodePoint) : Prop := ∃ v, t = .scalar '#' :: v ∧ Numeral.IsValue v

/-- The operands that a mnemonic takes in a program that defines the given labels. -/
def Mnemonic.Takes (defined : List CodePoint → Prop) (m : Mnemonic) (operand : Option (List CodePoint)) :
    Prop :=
  match m, operand with
  | .inp, _ | .out, _ | .hlt, _ => True
  | .dat, none => True
  | .dat, some t => Numeral.IsDecimalValue t ∨ IsImmediate t ∨ defined t
  | _, none => False
  | _, some t => IsImmediate t ∨ (∃ label, t = .scalar '@' :: label ∧ defined label) ∨ defined t

def Source.Defines (s : Source) (label : List CodePoint) : Prop :=
  ∃ r ∈ s.records, r.defines label = true

structure Source.WellFormed (s : Source) : Prop where
  once : s.records.Pairwise fun a b => ∀ label, ¬ (a.defines label = true ∧ b.defines label = true)
  takes : ∀ r ∈ s.records, ∃ m : Mnemonic, r.mnemonic.text = m.text ∧
    m.Takes s.Defines (r.operand.map Word.text)

namespace Analysis

variable {labels : LabelTable} {r : Record} {ds : List Diagnostic}

theorem hasValue_eq_true_iff {t : List CodePoint} {b : Bool} (h : hasValue t = .ok b) :
    b = true ↔ Numeral.IsValue t := by
  have hread : b = true ↔ ∃ n, Numeral.read t = .ok n := by
    rw [hasValue] at h
    cases hr : Numeral.read t with
    | ok n => simp_all
    | error e => cases e <;> simp_all
  rw [hread, Numeral.IsValue]
  refine exists_congr fun n => ?_
  rw [Numeral.read_eq_ok_iff]
  have hshort : Numeral.isDecimal t = true → t.length ≤ Decimal.digitLimit := by
    intro hd
    by_contra hl
    simp [hasValue, Numeral.read, hd, Nat.lt_of_not_le hl] at h
  have hmax : n ≤ Numeral.maxValue ↔ n < 2 ^ 64 := by
    simp only [Numeral.maxValue]
    omega
  rw [hmax]
  exact ⟨fun hh => ⟨hh.1, hh.2.1⟩, fun hh => ⟨hh.1, hh.2, hshort⟩⟩

theorem unless_eq_nil_iff {b : Bool} {d : Diagnostic}
    (h : Except.ok (ε := Fault) (if b then [] else [d]) = .ok ds) : ds = [] ↔ b = true := by
  obtain rfl := Except.ok.inj h
  cases b <;> simp

theorem inspectValue_eq_nil_iff {t : List CodePoint} {d : Diagnostic} (h : inspectValue t d = .ok ds) :
    ds = [] ↔ Numeral.IsValue t := by
  cases hv : hasValue t with
  | error e => simp [inspectValue, hv, Except.map] at h
  | ok b =>
    rw [← hasValue_eq_true_iff hv]
    simp only [inspectValue, hv, Except.map] at h
    exact unless_eq_nil_iff h

theorem isValue_iff_of_isDecimal {t : List CodePoint} (h : Numeral.isDecimal t = true) :
    Numeral.IsValue t ↔ Numeral.IsDecimalValue t :=
  exists_congr fun _ => and_congr_left fun _ => Numeral.denotes_iff_of_isDecimal h

theorem not_isValue_nil : ¬ Numeral.IsValue [] := by
  rintro ⟨n, h, -⟩
  cases h with
  | decimal h => exact h.1 rfl

theorem isImmediate_cons_iff {v : List CodePoint} : IsImmediate (.scalar '#' :: v) ↔ Numeral.IsValue v := by
  simp [IsImmediate]

theorem addressing_of_isDecimalValue {t : List CodePoint} (h : Numeral.IsDecimalValue t) :
    addressing t = .numeric := by
  obtain ⟨n, hn, -⟩ := h
  exact addressing_eq_numeric_iff.2 (Numeral.isDecimal_of_hasPlaces hn)

theorem addressing_of_isImmediate {t : List CodePoint} (h : IsImmediate t) : addressing t = .immediate := by
  obtain ⟨v, hv, -⟩ := h
  exact addressing_eq_immediate_iff.2 ⟨v, hv⟩

theorem inspectData_eq_nil_iff {line : Nat} {w : Word}
    (hlabel : labels.contains w.text = true → addressing w.text = .direct)
    (h : inspectData labels line w = .ok ds) :
    ds = [] ↔ Numeral.IsDecimalValue w.text ∨ IsImmediate w.text ∨ labels.contains w.text = true := by
  have hdec := @addressing_of_isDecimalValue w.text
  have himm := @addressing_of_isImmediate w.text
  cases ha : addressing w.text with
  | numeric =>
    simp only [inspectData, ha, reduceCtorEq, imp_false] at h himm hlabel
    rw [inspectValue_eq_nil_iff h, isValue_iff_of_isDecimal (addressing_eq_numeric_iff.1 ha)]
    simp [himm, hlabel]
  | immediate =>
    obtain ⟨v, hv⟩ := addressing_eq_immediate_iff.1 ha
    simp only [inspectData, ha, reduceCtorEq, imp_false] at h hdec hlabel
    rw [inspectValue_eq_nil_iff h]
    simp only [hdec, hlabel, Bool.false_eq_true, false_or, or_false]
    rw [hv, isImmediate_cons_iff, List.drop_succ_cons, List.drop_zero]
  | indirect | direct =>
    rw [inspectData_label (by simp [ha]) (by simp [ha])] at h
    simp only [ha, reduceCtorEq, imp_false] at hdec himm
    simp only [unless_eq_nil_iff h, hdec, himm, false_or]

theorem inspectOperand_eq_nil_iff {m : List CodePoint} {line : Nat} {w : Word}
    (hlabel : labels.contains w.text = true → addressing w.text = .direct)
    (h : inspectOperand labels m line w = .ok ds) :
    ds = [] ↔ IsImmediate w.text ∨
      (∃ label, w.text = .scalar '@' :: label ∧ labels.contains label = true) ∨
      labels.contains w.text = true := by
  have himm := @addressing_of_isImmediate w.text
  have hind : (∃ label, w.text = .scalar '@' :: label ∧ labels.contains label = true) →
      addressing w.text = .indirect :=
    fun ⟨label, hw, _⟩ => addressing_eq_indirect_iff.2 ⟨label, hw⟩
  cases ha : addressing w.text with
  | numeric =>
    rw [inspectOperand_numeric ha] at h
    simp only [ha, reduceCtorEq, imp_false] at himm hind hlabel
    have hne : ds ≠ [] := by
      rintro rfl
      cases hv : hasValue w.text with
      | error e => simp [hv, Except.map] at h
      | ok b => cases b <;> simp [hv, Except.map] at h
    simp only [hne, himm, hind, hlabel, Bool.false_eq_true, or_false]
  | immediate =>
    obtain ⟨v, hv⟩ := addressing_eq_immediate_iff.1 ha
    rw [inspectOperand_immediate ha] at h
    simp only [ha, reduceCtorEq, imp_false] at hind hlabel
    simp only [hind, hlabel, Bool.false_eq_true, or_false]
    rw [hv, isImmediate_cons_iff]
    split at h
    · next hl =>
      obtain rfl : v = [] := by simpa [hv] using hl
      obtain rfl := Except.ok.inj h
      simp [not_isValue_nil]
    · rw [inspectValue_eq_nil_iff h, hv, List.drop_succ_cons, List.drop_zero]
  | indirect =>
    obtain ⟨v, hv⟩ := addressing_eq_indirect_iff.1 ha
    rw [inspectOperand_indirect ha] at h
    simp only [ha, reduceCtorEq, imp_false] at himm hlabel
    simp only [unless_eq_nil_iff h, himm, hlabel, Bool.false_eq_true, false_or, or_false]
    simp [hv]
  | direct =>
    rw [inspectOperand_direct ha] at h
    simp only [ha, reduceCtorEq, imp_false] at himm hind
    simp only [unless_eq_nil_iff h, himm, hind, false_or]

theorem takes_of_ignoresOperand {defined : List CodePoint → Prop} {m : Mnemonic}
    {operand : Option (List CodePoint)} (h : m.ignoresOperand = true) : m.Takes defined operand := by
  cases m <;> simp_all [Mnemonic.ignoresOperand, Mnemonic.Takes]

theorem takes_iff_of_needsOperand {defined : List CodePoint → Prop} {m : Mnemonic}
    {operand : Option (List CodePoint)} (hi : m.ignoresOperand = false) (hd : m ≠ .dat) :
    m.Takes defined operand ↔ ∃ t, operand = some t ∧
      (IsImmediate t ∨ (∃ label, t = .scalar '@' :: label ∧ defined label) ∨ defined t) := by
  cases m <;> cases operand <;> simp_all [Mnemonic.ignoresOperand, Mnemonic.Takes]

theorem inspectArgument_eq_nil_iff {m : Mnemonic} (hm : r.mnemonic.text = m.text)
    (hlabel : ∀ k, labels.contains k = true → addressing k = .direct)
    (h : inspectArgument labels r = .ok ds) :
    ds = [] ↔ m.Takes (labels.contains · = true) (r.operand.map Word.text) := by
  have hignores : r.ignoresOperand = m.ignoresOperand := by
    simp [Record.ignoresOperand, hm, Mnemonic.ofText?_text]
  have hdat : r.isMnemonic .dat = true ↔ m = .dat := by
    rw [isMnemonic_iff, hm, Mnemonic.ofText?_text, Option.some.injEq]
  rw [inspectArgument_eq, hignores] at h
  cases hi : m.ignoresOperand with
  | true =>
    obtain rfl : [] = ds := by simpa [hi] using h
    exact iff_of_true rfl (takes_of_ignoresOperand hi)
  | false =>
    simp only [hi, Bool.false_eq_true, if_false] at h
    by_cases hd : m = .dat
    · simp only [hdat.2 hd, if_true] at h
      subst hd
      cases ho : r.operand with
      | none =>
        obtain rfl : [] = ds := by simpa [ho] using h
        exact iff_of_true rfl trivial
      | some w =>
        simp only [ho] at h
        exact inspectData_eq_nil_iff (hlabel w.text) h
    · simp only [mt hdat.1 hd, Bool.false_eq_true, if_false] at h
      rw [takes_iff_of_needsOperand hi hd]
      cases ho : r.operand with
      | none =>
        obtain rfl : [missingOperand r] = ds := by simpa [ho] using h
        simp
      | some w =>
        simp only [ho] at h
        rw [inspectOperand_eq_nil_iff (hlabel w.text) h]
        simp

theorem inspectRecord_eq_nil_iff (hlabel : ∀ k, labels.contains k = true → addressing k = .direct)
    (h : inspectRecord labels r = .ok ds) :
    ds = [] ↔ ∃ m : Mnemonic, r.mnemonic.text = m.text ∧
      m.Takes (labels.contains · = true) (r.operand.map Word.text) := by
  rw [inspectRecord] at h
  cases ha : inspectArgument labels r with
  | error e => simp [ha, Except.map] at h
  | ok as =>
    obtain rfl : inspectMnemonic r ++ as = ds := by simpa [ha, Except.map] using h
    cases hm : Mnemonic.ofText? r.mnemonic.text with
    | none =>
      have hno : ∀ m : Mnemonic, r.mnemonic.text ≠ m.text := by
        intro m he
        simp [he, Mnemonic.ofText?_text] at hm
      simp [inspectMnemonic, hm, hno]
    | some m =>
      have htext := (Mnemonic.ofText?_eq_some_iff.1 hm).symm
      have hnone : inspectMnemonic r = [] := by simp only [inspectMnemonic, hm]
      rw [hnone, List.nil_append, inspectArgument_eq_nil_iff htext hlabel ha]
      constructor
      · exact fun ht => ⟨m, htext, ht⟩
      · rintro ⟨m', hm', ht⟩
        exact Mnemonic.text_injective (htext.symm.trans hm') ▸ ht

theorem inspectRecords_eq_nil_iff {rs : List Record}
    (hlabel : ∀ k, labels.contains k = true → addressing k = .direct)
    (h : inspectRecords labels rs = .ok ds) :
    ds = [] ↔ ∀ r ∈ rs, ∃ m : Mnemonic, r.mnemonic.text = m.text ∧
      m.Takes (labels.contains · = true) (r.operand.map Word.text) := by
  induction rs generalizing ds with
  | nil =>
    obtain rfl := Except.ok.inj h
    simp
  | cons r rs ih =>
    obtain ⟨xs, ys, hx, hy, rfl⟩ := inspectRecords_cons_ok.1 h
    rw [List.append_eq_nil_iff, inspectRecord_eq_nil_iff hlabel hx, ih hy, List.forall_mem_cons]

end Analysis

theorem repeatedLabels_cons_eq_nil_iff {known : LabelTable} {r : Record} {rs : List Record} :
    repeatedLabels known (r :: rs) = [] ↔
      (∀ label, ¬ (known.contains label = true ∧ r.defines label = true)) ∧
        repeatedLabels (known.addRecord r) rs = [] := by
  cases hl : r.label with
  | none => simp [repeatedLabels, Record.defines, hl]
  | some w =>
    cases hk : known.contains w.text with
    | true =>
      simp only [repeatedLabels, Record.defines, hl, hk, if_true, reduceCtorEq, Option.any_some,
        beq_iff_eq, false_iff, not_and]
      exact fun h _ => h w.text hk rfl
    | false =>
      have hno : ∀ label, ¬ (known.contains label = true ∧ r.defines label = true) := by
        rintro label ⟨hc, hd⟩
        simp only [Record.defines, hl, Option.any_some, beq_iff_eq] at hd
        simp [← hd, hk] at hc
      simp only [repeatedLabels, hl, hk, Bool.false_eq_true, if_false]
      exact (and_iff_right hno).symm

/-- No label is repeated if none is known before and no two records define the same. -/
theorem repeatedLabels_eq_nil_iff {known : LabelTable} {rs : List Record} :
    repeatedLabels known rs = [] ↔
      (∀ r ∈ rs, ∀ label, ¬ (known.contains label = true ∧ r.defines label = true)) ∧
        rs.Pairwise fun a b => ∀ label, ¬ (a.defines label = true ∧ b.defines label = true) := by
  induction rs generalizing known with
  | nil => simp [repeatedLabels]
  | cons r rs ih =>
    rw [repeatedLabels_cons_eq_nil_iff, ih, List.forall_mem_cons, List.pairwise_cons]
    simp only [LabelTable.contains_addRecord, Bool.or_eq_true, or_and_right, not_or, forall_and]
    tauto

theorem defines_iff_contains {s : Source} {label : List CodePoint} :
    s.Defines label ↔ (LabelTable.ofRecords s.records).contains label = true := by
  rw [LabelTable.contains_ofRecords_eq, List.any_eq_true, Source.Defines]

theorem addressing_of_defines {s : Source} {label : List CodePoint} (h : s.Defines label) :
    addressing label = .direct := by
  obtain ⟨r, hr, hd⟩ := h
  obtain ⟨line, -, hread⟩ := Source.mem_records_iff.1 hr
  cases hl : r.label with
  | none => simp [Record.defines, hl] at hd
  | some w =>
    obtain rfl : w.text = label := by simpa [Record.defines, hl] using hd
    exact addressing_of_isIdentifier (Statement.isIdentifier_of_read? hread hl).1

/-- The diagnostics of a text that can be analysed are none just if it is a well-formed program. -/
theorem diagnostics_eq_nil_iff_wellFormed {s : Source} {a : Analysis} (ha : analyze s = .ok a) :
    a.diagnostics = [] ↔ s.WellFormed := by
  obtain ⟨ds, hds, rfl⟩ := analyze_ok_iff.1 ha
  have honce : duplicates s.records = [] ↔ s.records.Pairwise fun a b =>
      ∀ label, ¬ (a.defines label = true ∧ b.defines label = true) := by
    rw [duplicates, List.map_eq_nil_iff, repeatedLabels_eq_nil_iff]
    simp [LabelTable.contains_empty]
  have htakes := inspectRecords_eq_nil_iff
    (fun k hk => addressing_of_defines (defines_iff_contains.2 hk)) hds
  have hdefined : ((LabelTable.ofRecords s.records).contains · = true) = s.Defines :=
    funext fun label => propext defines_iff_contains.symm
  rw [hdefined] at htakes
  rw [List.append_eq_nil_iff, honce, htakes]
  exact ⟨fun h => ⟨h.1, h.2⟩, fun h => ⟨h.once, h.takes⟩⟩

/-- A program with references before and after their labels, and immediate values of three bases. -/
def loopProgram : Source :=
  Source.named none (Text.toList "LDA @P\nX SUB #0x1F\nBRP X\r\nOUT 9 ; shown\nP DAT X\nDAT #0B1\nDAT 007")

theorem diagnostics_eq_nil_iff_wellFormed_loopProgram :
    ∃ a, analyze loopProgram = .ok a ∧ a.diagnostics = [] ∧ loopProgram.WellFormed := by
  obtain ⟨a, ha, hnil⟩ : ∃ a, analyze loopProgram = .ok a ∧ a.diagnostics = [] := by
    refine ⟨_, rfl, ?_⟩
    decide +kernel
  exact ⟨a, ha, hnil, (diagnostics_eq_nil_iff_wellFormed ha).1 hnil⟩

end LittleMan
