import LittleMan.Proofs.FirstDefinitions
import LittleMan.Proofs.LineByLine
import LittleMan.Proofs.Logging
import LittleMan.Proofs.MnemonicFix
import LittleMan.Proofs.WellFormed

/-! The order of diagnostics and their number. Repeated labels come first, one a line at most; then each
line gives at most a word that is no mnemonic and one thing that is wrong with its operand, in this
order. No diagnostic says what another says, and a listener hears them in the order of the list. -/

namespace LittleMan

open Analysis

/-- What is reported for a line besides a repeated label. -/
inductive LineReport : List Diagnostic → Prop
  | clean : LineReport []
  | single (d : Diagnostic) : LineReport [d]
  | double {d e : Diagnostic} (hd : d.kind = .invalidInstruction)
      (he : e.kind ≠ .invalidInstruction) : LineReport [d, e]

/-- The operand is a decimal numeral without `#`, and stands neither after `DAT` nor after a mnemonic
that ignores it. -/
def Record.HasBareNumeral (r : Record) (w : Word) : Prop :=
  r.operand = some w ∧ Numeral.isDecimal w.text = true ∧
    ∀ m ∈ [Mnemonic.dat, .inp, .out, .hlt], r.mnemonic.text ≠ m.text

def Kind.isOfBareNumeral : Kind → Bool
  | .numericNeedsHash | .numericOutOfRange => true
  | _ => false

/-- The diagnostics of a text: those of repeated labels, and those that are found on the lines. -/
structure Source.Reports (s : Source) (repeated found : List Diagnostic) : Prop where
  repeated_kind : ∀ d ∈ repeated, d.kind = .duplicateLabel
  repeated_line : repeated.Pairwise fun d e => d.span.line < e.span.line
  found_kind : ∀ d ∈ found, d.kind ≠ .duplicateLabel
  found_line : found.Pairwise fun d e => d.span.line ≤ e.span.line
  of_record : ∀ d ∈ repeated ++ found, ∃ r ∈ s.records, d.span.line = r.line
  each_line : ∀ r ∈ s.records, LineReport (found.filter (Diagnostic.isOnLine r.line))
  bare_numeral : ∀ r ∈ s.records, ∀ w, r.HasBareNumeral w →
    ∃ n, Numeral.HasPlaces 10 w.text n ∧
      (found.filter fun d => d.isOnLine r.line && d.kind.isOfBareNumeral) =
        [if n < 2 ^ 64 then numericNeedsHash r.line w else numericOutOfRange r.line w]
  distinct : (repeated ++ found).Pairwise fun d e => d.sameContent e = false

/-- One finding comes before another: on a line above, or as the word that is no mnemonic on the same line. -/
def Diagnostic.Precedes (d e : Diagnostic) : Prop :=
  d.span.line < e.span.line ∨
    d.span.line = e.span.line ∧ d.kind = .invalidInstruction ∧ e.kind ≠ .invalidInstruction

namespace Diagnostic

variable {d e : Diagnostic}

theorem sameContent_eq_false (h : d.kind ≠ e.kind ∨ d.span ≠ e.span) : d.sameContent e = false := by
  rw [sameContent, decide_eq_false_iff_not]
  rintro ⟨hkind, -, hspan, -⟩
  rcases h with h | h
  · exact h hkind
  · exact h hspan

theorem Precedes.line_le (h : d.Precedes e) : d.span.line ≤ e.span.line := by
  rcases h with h | ⟨h, -, -⟩ <;> omega

theorem Precedes.sameContent_eq_false (h : d.Precedes e) : d.sameContent e = false := by
  refine Diagnostic.sameContent_eq_false ?_
  rcases h with h | ⟨-, hd, he⟩
  · right
    intro heq
    rw [heq] at h
    omega
  · left
    rw [hd]
    exact he.symm

end Diagnostic

theorem LineReport.pairwise {ds : List Diagnostic} {n : Nat} (h : LineReport ds)
    (hline : ∀ d ∈ ds, d.span.line = n) : ds.Pairwise Diagnostic.Precedes := by
  cases h with
  | clean => exact .nil
  | single d => exact List.pairwise_singleton _ d
  | @double d e hd he =>
    have hsame : d.span.line = e.span.line := by
      rw [hline d (by simp), hline e (by simp)]
    exact List.pairwise_pair.2 (Or.inr ⟨hsame, hd, he⟩)

namespace Analysis

variable {labels : LabelTable} {r : Record} {ds : List Diagnostic}

theorem inspectMnemonic_eq (r : Record) :
    inspectMnemonic r = [] ∨ inspectMnemonic r = [invalidInstruction r] := by
  rw [inspectMnemonic]
  split
  · exact Or.inl rfl
  · exact Or.inr rfl

theorem lineReport_inspectRecord (h : inspectRecord labels r = .ok ds) : LineReport ds := by
  rcases inspectMnemonic_eq r with hm | hm
  · rcases inspectRecord_ok h with rfl | ⟨e, rfl, -⟩
    · rw [hm]
      exact .clean
    · rw [hm]
      exact .single e
  · rcases inspectRecord_ok h with rfl | ⟨e, rfl, hf⟩
    · rw [hm]
      exact .single _
    · rw [hm]
      exact .double rfl hf.kind_ne_invalidInstruction

theorem pairwise_inspectRecords {rs : List Record}
    (hrs : rs.Pairwise fun a b => a.line < b.line) (h : inspectRecords labels rs = .ok ds) :
    ds.Pairwise Diagnostic.Precedes := by
  induction rs generalizing ds with
  | nil =>
    obtain rfl := Except.ok.inj h
    exact .nil
  | cons r rs ih =>
    obtain ⟨hbelow, htail⟩ := List.pairwise_cons.1 hrs
    obtain ⟨xs, ys, hx, hy, rfl⟩ := inspectRecords_cons_ok.1 h
    have hline : ∀ d ∈ xs, d.span.line = r.line := fun d hd => line_of_mem_inspectRecord hx hd
    refine List.pairwise_append.2 ⟨(lineReport_inspectRecord hx).pairwise hline, ih htail hy, ?_⟩
    intro d hd e he
    obtain ⟨r', hr', hr'line⟩ := exists_line_of_mem hy he
    have hlt := hbelow r' hr'
    have hdline := hline d hd
    exact Or.inl (by omega)

theorem kind_ne_of_mem_inspectRecords {rs : List Record} {d : Diagnostic}
    (h : inspectRecords labels rs = .ok ds) (hd : d ∈ ds) : d.kind ≠ .duplicateLabel := by
  obtain ⟨before, r, after, xs, zs, ys, -, -, hz, -, -, hm⟩ := exists_record_of_mem h hd
  exact kind_ne_of_mem_inspectRecord hz hm

theorem inspectRecord_eq_filter {s : Source} (h : inspectRecords labels s.records = .ok ds)
    (hr : r ∈ s.records) :
    inspectRecord labels r = .ok (ds.filter (Diagnostic.isOnLine r.line)) := by
  obtain ⟨line, hline, hread⟩ := Source.mem_records_iff.1 hr
  rw [← s.lines_eq] at hline
  have hfilter := inspectLine_eq_filter h hline
  simpa only [Nat.zero_add, inspectLine, hread] using hfilter

theorem pairwise_definitions {rs : List Record} (h : rs.Pairwise fun a b => a.line < b.line) :
    (definitions rs).Pairwise fun p q => p.1 < q.1 := by
  refine h.filterMap _ ?_
  rintro a b hab p hp q hq
  obtain ⟨v, -, rfl⟩ := Option.map_eq_some_iff.1 hp
  obtain ⟨w, -, rfl⟩ := Option.map_eq_some_iff.1 hq
  exact hab

theorem pairwise_duplicates (s : Source) :
    (duplicates s.records).Pairwise fun d e => d.span.line < e.span.line := by
  rw [duplicates, repeatedLabels_eq_filter .empty s.pairwise_line_records, List.pairwise_map]
  refine ((pairwise_definitions s.pairwise_line_records).filter _).imp fun {p q} hpq => ?_
  exact Int.ofNat_lt.2 hpq

theorem exists_record_of_mem_duplicates {s : Source} {d : Diagnostic}
    (h : d ∈ duplicates s.records) : ∃ r ∈ s.records, d.span.line = r.line := by
  rw [duplicates, repeatedLabels_eq_filter .empty s.pairwise_line_records] at h
  obtain ⟨p, hp, rfl⟩ := List.mem_map.1 h
  obtain ⟨r, hr, hline, -⟩ := mem_definitions_iff.1 (List.mem_filter.1 hp).1
  exact ⟨r, hr, congrArg Int.ofNat hline.symm⟩

theorem filter_inspectRecord_of_bareNumeral {w : Word} (hw : r.HasBareNumeral w)
    (h : inspectRecord labels r = .ok ds) :
    ∃ n, Numeral.HasPlaces 10 w.text n ∧ ds.filter (·.kind.isOfBareNumeral) =
      [if n < 2 ^ 64 then numericNeedsHash r.line w else numericOutOfRange r.line w] := by
  obtain ⟨ho, hdec, hm⟩ := hw
  have hi : r.ignoresOperand = false :=
    ignoresOperand_eq_false_iff.2 fun m hmem => hm m (List.mem_cons_of_mem _ hmem)
  have hd : r.isMnemonic .dat = false := by
    rw [Statement.isMnemonic, beq_eq_false_iff_ne]
    exact hm .dat List.mem_cons_self
  obtain ⟨as, has, rfl⟩ := inspectRecord_ok_iff.1 h
  have hmnemonic := filter_inspectMnemonic_eq_nil (p := Kind.isOfBareNumeral) rfl r
  rw [inspectArgument_eq] at has
  simp only [hi, ho, hd, Bool.false_eq_true, if_false,
    inspectOperand_numeric (addressing_eq_numeric_iff.2 hdec)] at has
  refine ⟨Decimal.value w.text, Numeral.hasPlaces_ten_iff.2 ⟨hdec, rfl⟩, ?_⟩
  rw [List.filter_append, hmnemonic, List.nil_append]
  cases hv : hasValue w.text with
  | error e => simp [hv, Except.map] at has
  | ok b =>
    have hb : b = true ↔ Decimal.value w.text < 2 ^ 64 := by
      rw [hasValue_eq_true_iff hv, isValue_iff_of_isDecimal hdec, Numeral.IsDecimalValue]
      simp only [Numeral.hasPlaces_ten_iff, hdec, true_and, exists_eq_left']
    obtain rfl : (if b then [numericNeedsHash r.line w] else [numericOutOfRange r.line w]) = as := by
      simpa [hv, Except.map] using has
    simp only [← hb]
    cases b <;> rfl

end Analysis

/-- The diagnostics of a text that can be analysed, and what a listener hears of them. -/
theorem exists_reports {s : Source} {a : Analysis} (ha : analyze s = .ok a) :
    ∃ repeated found, a.diagnostics = repeated ++ found ∧ s.Reports repeated found ∧
      ∀ {σ : Type} (hear : σ → Diagnostic → σ) (start : σ),
        Log.analyze hear { heard := start } s =
          ({ diagnostics := a.diagnostics, heard := a.diagnostics.foldl hear start }, .ok a) := by
  obtain ⟨found, hfound, rfl⟩ := analyze_ok_iff.1 ha
  have hprecedes := pairwise_inspectRecords s.pairwise_line_records hfound
  refine ⟨duplicates s.records, found, rfl, ?_, ?_⟩
  · constructor
    case repeated_kind => exact fun d hd => kind_of_mem_duplicates hd
    case repeated_line => exact pairwise_duplicates s
    case found_kind => exact fun d hd => kind_ne_of_mem_inspectRecords hfound hd
    case found_line => exact hprecedes.imp Diagnostic.Precedes.line_le
    case of_record =>
      intro d hd
      rcases List.mem_append.1 hd with hd | hd
      · exact exists_record_of_mem_duplicates hd
      · exact exists_line_of_mem hfound hd
    case each_line => exact fun r hr => lineReport_inspectRecord (inspectRecord_eq_filter hfound hr)
    case bare_numeral =>
      intro r hr w hw
      obtain ⟨n, hn, hfilter⟩ :=
        filter_inspectRecord_of_bareNumeral hw (inspectRecord_eq_filter hfound hr)
      refine ⟨n, hn, ?_⟩
      rw [← hfilter, List.filter_filter]
      simp only [Bool.and_comm]
    case distinct =>
      refine List.pairwise_append.2 ⟨?_, hprecedes.imp Diagnostic.Precedes.sameContent_eq_false, ?_⟩
      · refine (pairwise_duplicates s).imp fun {d e} hlt => ?_
        exact Diagnostic.Precedes.sameContent_eq_false (Or.inl hlt)
      · intro d hd e he
        refine Diagnostic.sameContent_eq_false (Or.inl ?_)
        rw [kind_of_mem_duplicates hd]
        exact (kind_ne_of_mem_inspectRecords hfound he).symm
  · intro σ hear start
    refine Prod.ext ?_ ?_
    · rw [Log.analyze_of_ok hear _ ha, Log.writeAll_eq]
      rfl
    · rw [Log.analyze_snd]
      exact ha

/-- A program with a label given three times, a word that is no mnemonic and two bare numerals. -/
def crowdedProgram : Source :=
  Source.named none (Text.toList "A DAT B\nA XYZ 7\nA LDA 18446744073709551616\nBRA")

theorem exists_reports_crowdedProgram :
    ∃ a, analyze crowdedProgram = .ok a ∧
      a.diagnostics.map (fun d => (d.kind, d.span.line)) =
        [(.duplicateLabel, 1), (.duplicateLabel, 2), (.datOperandInvalid, 0),
          (.invalidInstruction, 1), (.numericNeedsHash, 1), (.numericOutOfRange, 2),
          (.missingOperand, 3)] ∧
      ∃ repeated found, a.diagnostics = repeated ++ found ∧
        crowdedProgram.Reports repeated found ∧
        ∀ {σ : Type} (hear : σ → Diagnostic → σ) (start : σ),
          Log.analyze hear { heard := start } crowdedProgram =
            ({ diagnostics := a.diagnostics, heard := a.diagnostics.foldl hear start }, .ok a) := by
  obtain ⟨a, ha, hkinds⟩ : ∃ a, analyze crowdedProgram = .ok a ∧
      a.diagnostics.map (fun d => (d.kind, d.span.line)) =
        [(.duplicateLabel, 1), (.duplicateLabel, 2), (.datOperandInvalid, 0),
          (.invalidInstruction, 1), (.numericNeedsHash, 1), (.numericOutOfRange, 2),
          (.missingOperand, 3)] := by
    refine ⟨_, rfl, ?_⟩
    decide +kernel
  exact ⟨a, ha, hkinds, exists_reports ha⟩

end LittleMan
