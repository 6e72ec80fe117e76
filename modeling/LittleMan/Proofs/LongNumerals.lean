import LittleMan.Proofs.WellFormed

/-! When the analysis of a text fails, and what becomes of the numerals that it reads. It fails just on a
decimal numeral of more than 4300 digits, and otherwise each text that is read as a numeral and is
refused gives one diagnostic. -/

namespace LittleMan

open Analysis

/-- The kinds of diagnostics that a refused numeral gives. -/
def Kind.isOutOfRange : Kind → Bool
  | .immediateOutOfRange | .numericOutOfRange => true
  | _ => false

namespace Numeral

def IsOverlong (t : List CodePoint) : Prop := 4300 < t.length ∧ ∀ c ∈ t, c.isDigit = true

/-- The text has no value, and it can be said why. -/
def isRefused (t : List CodePoint) : Bool :=
  match read t with
  | .ok _ => false
  | .error issue => (issue.message t).isSome

end Numeral

namespace Record

/-- The operand counts, and is a decimal numeral that is too long, or `#` and such a numeral. -/
def IsOverlong (r : Record) : Prop :=
  (∀ m ∈ [Mnemonic.inp, .out, .hlt], r.mnemonic.text ≠ m.text) ∧
    ∃ w t, r.operand = some w ∧ (w.text = t ∨ w.text = .scalar '#' :: t) ∧ Numeral.IsOverlong t

/-- What is read as a numeral in the operand, and what is reported if it is refused. -/
def reading? (r : Record) : Option (List CodePoint × Diagnostic) :=
  if r.ignoresOperand then none
  else r.operand.bind fun w =>
    match addressing w.text with
    | .numeric => some (w.text, numericOutOfRange r.line w)
    | .immediate =>
      if r.isMnemonic .dat || 1 < w.text.length then
        some (w.text.drop 1, immediateOutOfRange r.line w)
      else none
    | .indirect | .direct => none

def refusal? (r : Record) : Option Diagnostic :=
  (r.reading?.filter fun p => Numeral.isRefused p.1).map (·.2)

end Record

/-- How the analysis of a text ends. The places of all words can be read, whether it fails or not. -/
structure Source.Ends (s : Source) : Prop where
  fails : ∀ e, analyze s = .error e ↔ e = .tooManyDigits ∧ ∃ r ∈ s.records, r.IsOverlong
  returns : (∃ a, analyze s = .ok a) ↔ ∀ r ∈ s.records, ¬ r.IsOverlong
  refusals : ∀ a, analyze s = .ok a →
    a.diagnostics.filter (·.kind.isOutOfRange) = s.records.filterMap Record.refusal?
  places : ∀ r ∈ s.records, ∀ w ∈ r.words, s.textAt (w.span r.line) = .ok w.text

theorem Numeral.isOverlong_iff {t : List CodePoint} :
    IsOverlong t ↔ isDecimal t = true ∧ Decimal.digitLimit < t.length := by
  have hne : 4300 < t.length → t ≠ [] := by
    rintro h rfl
    cases h
  simp only [IsOverlong, isDecimal, Decimal.digitLimit, Bool.and_eq_true, Bool.not_eq_true',
    List.isEmpty_eq_false_iff, List.all_eq_true]
  exact ⟨fun h => ⟨⟨hne h.1, h.2⟩, h.1⟩, fun h => ⟨h.2, h.1.2⟩⟩

theorem Numeral.read_eq_tooManyDigits_iff {t : List CodePoint} :
    read t = .error .tooManyDigits ↔ IsOverlong t := by
  have hbound : ∀ n, (if maxValue < n then Except.error Issue.outOfRange else .ok n) ≠
      .error .tooManyDigits := by
    intro n
    split <;> simp
  rw [isOverlong_iff, read]
  by_cases hd : isDecimal t = true
  · by_cases hl : Decimal.digitLimit < t.length
    · simp [hd, hl]
    · simp [hd, hl, hbound]
  · cases radix? t <;> simp [hd, hbound]

namespace Analysis

variable {labels : LabelTable} {r : Record} {ds : List Diagnostic}

theorem hasValue_eq_ok_iff {t : List CodePoint} {b : Bool} :
    hasValue t = .ok b ↔ ¬ Numeral.IsOverlong t ∧ b = !Numeral.isRefused t := by
  rw [← Numeral.read_eq_tooManyDigits_iff, hasValue, Numeral.isRefused]
  rcases hr : Numeral.read t with issue | n
  · cases issue <;> simp [Numeral.Issue.message, eq_comm]
  · simp [eq_comm]

/-- What an operand gives: the diagnostic of the numeral that is read in it, if that is refused, and
otherwise `others`. -/
def outcome (reading : Option (List CodePoint × Diagnostic)) (others : List Diagnostic) :
    Except Fault (List Diagnostic) :=
  match reading with
  | some (t, d) => (hasValue t).map fun ok => if ok then others else [d]
  | none => .ok others

theorem exists_unless (b : Bool) {d : Diagnostic} (hd : d.kind.isOutOfRange = false) :
    ∃ others : List Diagnostic, (∀ d ∈ others, d.kind.isOutOfRange = false) ∧
      Except.ok (ε := Fault) (if b then [] else [d]) = outcome none others := by
  refine ⟨if b then [] else [d], ?_, rfl⟩
  cases b <;> simp [hd]

/-- Besides the numeral that is read in an operand, nothing lets the analysis of a record fail or is
out of range. -/
theorem exists_inspectArgument_eq (labels : LabelTable) (r : Record) :
    ∃ others : List Diagnostic, (∀ d ∈ others, d.kind.isOutOfRange = false) ∧
      inspectArgument labels r = outcome r.reading? others := by
  rw [inspectArgument_eq, Record.reading?]
  cases hi : r.ignoresOperand with
  | true => exact ⟨[], by simp, rfl⟩
  | false =>
    cases ho : r.operand with
    | none => exact exists_unless _ rfl
    | some w =>
      simp only [Bool.false_eq_true, if_false, Option.bind_some]
      cases hd : r.isMnemonic .dat with
      | true =>
        simp only [if_true, Bool.true_or]
        cases ha : addressing w.text with
        | numeric | immediate => exact ⟨[], by simp, by simp only [inspectData, ha]; rfl⟩
        | indirect | direct =>
          rw [inspectData_label (by simp [ha]) (by simp [ha])]
          exact exists_unless _ rfl
      | false =>
        simp only [Bool.false_eq_true, if_false, Bool.false_or]
        cases ha : addressing w.text with
        | numeric =>
          rw [inspectOperand_numeric ha]
          exact ⟨[numericNeedsHash r.line w], by simp [numericNeedsHash, report, Kind.isOutOfRange], rfl⟩
        | immediate =>
          rw [inspectOperand_immediate ha]
          by_cases hl : w.text.length ≤ 1
          · rw [if_pos hl, if_neg (by simpa using hl)]
            exact ⟨[incompleteImmediate r.mnemonic.text r.line w],
              by simp [incompleteImmediate, report, Kind.isOutOfRange], rfl⟩
          · rw [if_neg hl, if_pos (by simpa using hl)]
            exact ⟨[], by simp, rfl⟩
        | indirect =>
          rw [inspectOperand_indirect ha]
          exact exists_unless _ rfl
        | direct =>
          rw [inspectOperand_direct ha]
          exact exists_unless _ rfl

/-- A numeral is read in an operand that counts: all of it if it is decimal, and what follows `#`. -/
theorem reading?_eq_some_iff {p : List CodePoint × Diagnostic} :
    r.reading? = some p ↔ r.ignoresOperand = false ∧ ∃ w, r.operand = some w ∧
      (addressing w.text = .numeric ∧ p = (w.text, numericOutOfRange r.line w) ∨
        addressing w.text = .immediate ∧ (r.isMnemonic .dat = true ∨ 1 < w.text.length) ∧
          p = (w.text.drop 1, immediateOutOfRange r.line w)) := by
  rw [Record.reading?]
  cases r.ignoresOperand with
  | true => simp
  | false =>
    cases r.operand with
    | none => simp
    | some w =>
      simp only [Bool.false_eq_true, if_false, Option.bind_some, Option.some.injEq,
        exists_eq_left', true_and]
      cases addressing w.text with
      | numeric => simp [eq_comm (b := p)]
      | immediate => cases r.isMnemonic .dat <;> simp [eq_comm (b := p)]
      | indirect | direct => simp

theorem isOverlong_iff_reading? :
    r.IsOverlong ↔ ∃ p, r.reading? = some p ∧ Numeral.IsOverlong p.1 := by
  simp only [Record.IsOverlong, ← ignoresOperand_eq_false_iff, reading?_eq_some_iff]
  constructor
  · rintro ⟨hi, w, t, ho, hw, ht⟩
    rcases hw with rfl | hw
    · have ha := addressing_eq_numeric_iff.2 (Numeral.isOverlong_iff.1 ht).1
      exact ⟨_, ⟨hi, w, ho, Or.inl ⟨ha, rfl⟩⟩, ht⟩
    · have ha : addressing w.text = .immediate := addressing_eq_immediate_iff.2 ⟨t, hw⟩
      have hl : 1 < w.text.length := by
        have hlong := ht.1
        rw [hw, List.length_cons]
        omega
      refine ⟨_, ⟨hi, w, ho, Or.inr ⟨ha, Or.inr hl, rfl⟩⟩, ?_⟩
      rwa [hw]
  · rintro ⟨p, ⟨hi, w, ho, hp⟩, ht⟩
    refine ⟨hi, w, p.1, ho, ?_, ht⟩
    rcases hp with ⟨-, rfl⟩ | ⟨ha, -, rfl⟩
    · exact Or.inl rfl
    · obtain ⟨v, hv⟩ := addressing_eq_immediate_iff.1 ha
      exact Or.inr (by simp [hv])

theorem exists_inspectArgument_iff (labels : LabelTable) :
    (∃ ds, inspectArgument labels r = .ok ds) ↔ ¬ r.IsOverlong := by
  obtain ⟨others, -, h⟩ := exists_inspectArgument_eq labels r
  rw [h, isOverlong_iff_reading?]
  cases hr : r.reading? with
  | none => simp [outcome]
  | some p =>
    simp only [outcome, Option.some.injEq, exists_eq_left']
    constructor
    · rintro ⟨ds, hds⟩
      cases hv : hasValue p.1 with
      | error e => simp [hv, Except.map] at hds
      | ok b => exact (hasValue_eq_ok_iff.1 hv).1
    · intro hp
      have hv := hasValue_eq_ok_iff.2 ⟨hp, rfl⟩
      rw [hv]
      exact ⟨_, rfl⟩

theorem isOutOfRange_of_reading? {p : List CodePoint × Diagnostic} (h : r.reading? = some p) :
    p.2.kind.isOutOfRange = true := by
  obtain ⟨-, w, -, ⟨-, rfl⟩ | ⟨-, -, rfl⟩⟩ := reading?_eq_some_iff.1 h
  · rfl
  · rfl

/-- The numeral of a record is reported once if it is refused, and else not at all. -/
theorem filter_inspectArgument (h : inspectArgument labels r = .ok ds) :
    ds.filter (·.kind.isOutOfRange) = r.refusal?.toList := by
  obtain ⟨others, hothers, heq⟩ := exists_inspectArgument_eq labels r
  have hnone : others.filter (·.kind.isOutOfRange) = [] :=
    List.filter_eq_nil_iff.2 fun d hd => by simp [hothers d hd]
  rw [heq] at h
  rw [Record.refusal?]
  cases hr : r.reading? with
  | none =>
    rw [hr] at h
    obtain rfl : others = ds := Except.ok.inj h
    exact hnone
  | some p =>
    simp only [hr, outcome] at h
    cases hv : hasValue p.1 with
    | error e => simp [hv, Except.map] at h
    | ok b =>
      obtain rfl : (if b then others else [p.2]) = ds := by simpa [hv, Except.map] using h
      obtain ⟨-, rfl⟩ := hasValue_eq_ok_iff.1 hv
      have hp := isOutOfRange_of_reading? hr
      rw [Option.filter_some]
      cases hrefused : Numeral.isRefused p.1 <;> simp [hp, hnone]

theorem filter_inspectRecord (h : inspectRecord labels r = .ok ds) :
    ds.filter (·.kind.isOutOfRange) = r.refusal?.toList := by
  obtain ⟨as, has, rfl⟩ := inspectRecord_ok_iff.1 h
  have hmnemonic := filter_inspectMnemonic_eq_nil (p := Kind.isOutOfRange) rfl r
  rw [List.filter_append, hmnemonic, List.nil_append, filter_inspectArgument has]

theorem exists_inspectRecords_iff (labels : LabelTable) {rs : List Record} :
    (∃ ds, inspectRecords labels rs = .ok ds) ↔ ∀ r ∈ rs, ¬ r.IsOverlong := by
  induction rs with
  | nil => simp [inspectRecords]
  | cons r rs ih =>
    rw [List.forall_mem_cons, ← ih, ← exists_inspectArgument_iff labels]
    constructor
    · rintro ⟨ds, h⟩
      obtain ⟨xs, ys, hx, hy, -⟩ := inspectRecords_cons_ok.1 h
      obtain ⟨as, has, -⟩ := inspectRecord_ok_iff.1 hx
      exact ⟨⟨as, has⟩, ys, hy⟩
    · rintro ⟨⟨as, has⟩, ys, hy⟩
      have hx := inspectRecord_ok_iff.2 ⟨as, has, rfl⟩
      exact ⟨_, inspectRecords_cons_ok.2 ⟨_, ys, hx, hy, rfl⟩⟩

theorem filter_inspectRecords {rs : List Record} (h : inspectRecords labels rs = .ok ds) :
    ds.filter (·.kind.isOutOfRange) = rs.filterMap Record.refusal? := by
  induction rs generalizing ds with
  | nil =>
    obtain rfl := Except.ok.inj h
    rfl
  | cons r rs ih =>
    obtain ⟨xs, ys, hx, hy, rfl⟩ := inspectRecords_cons_ok.1 h
    rw [List.filter_append, filter_inspectRecord hx, ih hy, List.filterMap_cons]
    cases r.refusal? <;> rfl

end Analysis

theorem exists_analyze_iff {s : Source} :
    (∃ a, analyze s = .ok a) ↔ ∀ r ∈ s.records, ¬ r.IsOverlong := by
  rw [← exists_inspectRecords_iff (LabelTable.ofRecords s.records)]
  constructor
  · rintro ⟨a, ha⟩
    obtain ⟨ds, hds, -⟩ := analyze_ok_iff.1 ha
    exact ⟨ds, hds⟩
  · rintro ⟨ds, hds⟩
    exact ⟨_, analyze_ok_iff.2 ⟨ds, hds, rfl⟩⟩

theorem filter_diagnostics {s : Source} {a : Analysis} (ha : analyze s = .ok a) :
    a.diagnostics.filter (·.kind.isOutOfRange) = s.records.filterMap Record.refusal? := by
  obtain ⟨ds, hds, rfl⟩ := analyze_ok_iff.1 ha
  have hdup := filter_duplicates_eq_nil (p := Kind.isOutOfRange) rfl s.records
  rw [List.filter_append, hdup, List.nil_append, filter_inspectRecords hds]

/-- The analysis fails on a numeral that is too long and on nothing else, and reports every other one
that is refused. -/
theorem analysis_ends (s : Source) : s.Ends where
  fails e := by
    constructor
    · intro he
      refine ⟨analyze_error he, ?_⟩
      by_contra hnone
      push Not at hnone
      obtain ⟨a, ha⟩ := exists_analyze_iff.2 hnone
      rw [he] at ha
      cases ha
    · rintro ⟨rfl, r, hr, hlong⟩
      cases ha : analyze s with
      | error e => rw [analyze_error ha]
      | ok a => exact absurd hlong (exists_analyze_iff.1 ⟨a, ha⟩ r hr)
  returns := exists_analyze_iff
  refusals _ ha := filter_diagnostics ha
  places _ hr _ hw := textAt_of_mem_words hr hw

example : (⟨⟨none, ⟨1, ['D', 'A', 'T']⟩, some ⟨5, ['#']⟩⟩, 0⟩ : Record).refusal? =
    some (immediateOutOfRange 0 ⟨5, ['#']⟩) := by decide +kernel

example : (⟨⟨none, ⟨1, ['A', 'D', 'D']⟩, some ⟨5, ['#']⟩⟩, 0⟩ : Record).refusal? = none := by
  decide +kernel

end LittleMan
