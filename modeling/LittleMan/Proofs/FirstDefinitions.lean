import LittleMan.Proofs.Labels
import LittleMan.Proofs.Logging
import LittleMan.Proofs.Words

/-! The first definition of each label and the repeated ones, told from the list of all definitions. The table
of labels holds the first ones in their order, and each repeated one is reported where it stands. -/

namespace LittleMan

/-- The labels of records, each with its line. -/
def definitions (rs : List Record) : List (Nat × Word) :=
  rs.filterMap fun r => r.label.map fun w => (r.line, w)

/-- The same label is defined on an earlier line. -/
def isRepeated (defs : List (Nat × Word)) (p : Nat × Word) : Bool :=
  defs.any fun q => q.1 < p.1 && q.2.text == p.2.text

def firstPlace? (defs : List (Nat × Word)) (name : List CodePoint) : Option Span :=
  (defs.find? fun p => p.2.text == name).map fun p => p.2.span p.1

/-- The table and the reports of repeated labels as they follow from the definitions of a text. -/
structure Source.Tabulated (s : Source) (t : LabelTable) (ds : List Diagnostic) : Prop where
  entries : t.entries = ((definitions s.records).map (·.2.text)).eraseDups.map fun name =>
    (name, firstPlace? (definitions s.records) name)
  find : ∀ name, t.find? name = firstPlace? (definitions s.records) name
  identifier : ∀ name ∈ t.names, isIdentifier name = true ∧ ∀ m : Mnemonic, name ≠ m.text
  repeated : ds = ((definitions s.records).filter (isRepeated (definitions s.records))).map fun p =>
    report .duplicateLabel ("Duplicate label: " ++ Text.ofList p.2.text) p.1 p.2
  length : ds.length + t.size = (definitions s.records).length

variable {r : Record} {rs : List Record} {w : Word} {p : Nat × Word}

theorem definitions_cons_of_none (hl : r.label = none) :
    definitions (r :: rs) = definitions rs := by
  simp [definitions, hl]

theorem definitions_cons_of_some (hl : r.label = some w) :
    definitions (r :: rs) = (r.line, w) :: definitions rs := by
  simp [definitions, hl]

theorem mem_definitions_iff : p ∈ definitions rs ↔ ∃ r ∈ rs, r.line = p.1 ∧ r.label = some p.2 := by
  simp only [definitions, List.mem_filterMap, Option.map_eq_some_iff]
  constructor
  · rintro ⟨r, hr, w, hl, rfl⟩
    exact ⟨r, hr, rfl, hl⟩
  · rintro ⟨r, hr, hline, hl⟩
    exact ⟨r, hr, p.2, hl, by rw [hline]⟩

theorem LabelTable.addRecord_of_none (t : LabelTable) (hl : r.label = none) :
    t.addRecord r = t := by
  simp only [addRecord, hl]

theorem isRepeated_cons (q : Nat × Word) (defs : List (Nat × Word)) :
    isRepeated (q :: defs) p = ((q.1 < p.1 && q.2.text == p.2.text) || isRepeated defs p) := by
  rw [isRepeated, List.any_cons, isRepeated]

theorem isRepeated_eq_false {defs : List (Nat × Word)} (h : ∀ q ∈ defs, p.1 ≤ q.1) :
    isRepeated defs p = false := by
  rw [isRepeated, List.any_eq_false]
  intro q hq
  have hle := h q hq
  have hlt : ¬ q.1 < p.1 := by omega
  simp [hlt]

/-- The definitions on lines one below the other that repeat a label, whether it was known before or
stands on one of the lines. -/
theorem repeatedLabels_eq_filter (known : LabelTable)
    (h : rs.Pairwise fun a b => a.line < b.line) :
    repeatedLabels known rs = (definitions rs).filter fun p =>
      known.contains p.2.text || isRepeated (definitions rs) p := by
  induction rs generalizing known with
  | nil => rfl
  | cons r rs ih =>
    obtain ⟨hbelow, htail⟩ := List.pairwise_cons.1 h
    have hrest := ih (known.addRecord r) htail
    cases hl : r.label with
    | none =>
      rw [LabelTable.addRecord_of_none known hl] at hrest
      rw [definitions_cons_of_none hl, ← hrest]
      simp only [repeatedLabels, hl, LabelTable.addRecord_of_none known hl]
    | some w =>
      have hline : ∀ p ∈ definitions rs, r.line < p.1 := by
        intro p hp
        obtain ⟨r', hr', hline, -⟩ := mem_definitions_iff.1 hp
        exact hline ▸ hbelow r' hr'
      have hhead : isRepeated ((r.line, w) :: definitions rs) (r.line, w) = false := by
        refine isRepeated_eq_false fun q hq => ?_
        rcases List.mem_cons.1 hq with rfl | hq
        · exact le_rfl
        · exact (hline q hq).le
      have hlater : (definitions rs).filter (fun p => (known.addRecord r).contains p.2.text ||
            isRepeated (definitions rs) p) =
          (definitions rs).filter fun p => known.contains p.2.text ||
            isRepeated ((r.line, w) :: definitions rs) p := by
        refine List.filter_congr fun p hp => ?_
        have hd : r.defines p.2.text = (w.text == p.2.text) := by simp [Record.defines, hl]
        rw [LabelTable.contains_addRecord, hd, isRepeated_cons, Bool.or_assoc]
        simp [hline p hp]
      rw [definitions_cons_of_some hl, List.filter_cons, hhead, Bool.or_false, ← hlater, ← hrest]
      simp only [repeatedLabels, hl]

namespace LabelTable

theorem insert_of_not_mem {name : List CodePoint} {span : Option Span}
    {entries : List (List CodePoint × Option Span)} (h : name ∉ entries.map (·.1)) :
    insert name span entries = entries ++ [(name, span)] := by
  induction entries with
  | nil => rfl
  | cons e rest ih =>
    simp only [List.map_cons, List.mem_cons, not_or] at h
    have hrest := ih h.2
    simp only [insert, Ne.symm h.1, if_false, hrest, List.cons_append]

theorem not_mem_names_iff {t : LabelTable} {name : List CodePoint} :
    name ∉ t.names ↔ t.contains name = false := by
  simp [contains]

theorem addRecord_of_known {t : LabelTable} (hl : r.label = some w)
    (hk : t.contains w.text = true) : t.addRecord r = t := by
  simp only [addRecord, hl, hk, if_true]

theorem entries_addRecord_of_new {t : LabelTable} (hl : r.label = some w)
    (hk : t.contains w.text = false) :
    (t.addRecord r).entries = t.entries ++ [(w.text, some (w.span r.line))] := by
  simp only [addRecord, hl, hk, Bool.false_eq_true, if_false, define]
  exact insert_of_not_mem (not_mem_names_iff.2 hk)

theorem firstPlace?_cons (p : Nat × Word) (defs : List (Nat × Word)) (name : List CodePoint) :
    firstPlace? (p :: defs) name =
      if p.2.text = name then some (p.2.span p.1) else firstPlace? defs name := by
  by_cases h : p.2.text = name <;> simp [firstPlace?, h]

/-- Records add to a table the labels that it lacks, each with its first definition among them. -/
theorem entries_foldl_addRecord (t : LabelTable) (rs : List Record) :
    (rs.foldl addRecord t).entries = t.entries ++
      (((definitions rs).map (·.2.text)).filter (!t.contains ·)).eraseDups.map fun name =>
        (name, firstPlace? (definitions rs) name) := by
  induction rs generalizing t with
  | nil => simp [definitions]
  | cons r rs ih =>
    rw [List.foldl_cons, ih (t.addRecord r)]
    cases hl : r.label with
    | none => rw [addRecord_of_none t hl, definitions_cons_of_none hl]
    | some w =>
      rw [definitions_cons_of_some hl, List.map_cons]
      have hother : ∀ names : List (List CodePoint), (∀ name ∈ names, name ≠ w.text) →
          names.map (fun name => (name, firstPlace? (definitions rs) name)) =
            names.map fun name => (name, firstPlace? ((r.line, w) :: definitions rs) name) := by
        intro names hne
        refine List.map_congr_left fun name hname => ?_
        rw [firstPlace?_cons, if_neg (hne name hname).symm]
      by_cases hk : t.contains w.text = true
      · rw [addRecord_of_known hl hk, List.filter_cons_of_neg (by simp [hk])]
        rw [hother]
        intro name hname
        rw [List.mem_eraseDups, List.mem_filter] at hname
        rintro rfl
        simp [hk] at hname
      · rw [Bool.not_eq_true] at hk
        have hfilter : ((definitions rs).map (·.2.text)).filter (!(t.addRecord r).contains ·) =
            (((definitions rs).map (·.2.text)).filter (!t.contains ·)).filter
              fun name => !name == w.text := by
          rw [List.filter_filter]
          refine List.filter_congr fun name _ => ?_
          have hd : r.defines name = (name == w.text) := by
            rw [Record.defines, hl, Option.any_some, BEq.comm]
          rw [contains_addRecord, hd, Bool.not_or, Bool.and_comm]
        rw [entries_addRecord_of_new hl hk, List.filter_cons_of_pos (by simp [hk]),
          List.eraseDups_cons, List.map_cons, firstPlace?_cons, if_pos rfl, hfilter, hother]
        · simp
        · intro name hname
          rw [List.mem_eraseDups, List.mem_filter] at hname
          simpa using hname.2

theorem entries_ofRecords (rs : List Record) :
    (ofRecords rs).entries = ((definitions rs).map (·.2.text)).eraseDups.map fun name =>
      (name, firstPlace? (definitions rs) name) := by
  have hfold := entries_foldl_addRecord .empty rs
  have hall : ((definitions rs).map (·.2.text)).filter (!contains .empty ·) =
      (definitions rs).map (·.2.text) := by
    refine List.filter_eq_self.2 fun name _ => ?_
    rw [contains_empty, Bool.not_false]
  rw [hall] at hfold
  exact hfold

theorem firstPlace?_eq_none {defs : List (Nat × Word)} {name : List CodePoint}
    (h : name ∉ defs.map (·.2.text)) : firstPlace? defs name = none := by
  rw [firstPlace?, Option.map_eq_none_iff, List.find?_eq_none]
  intro p hp heq
  exact h (List.mem_map.2 ⟨p, hp, eq_of_beq heq⟩)

theorem find?_ofRecords (rs : List Record) (name : List CodePoint) :
    (ofRecords rs).find? name = firstPlace? (definitions rs) name := by
  rw [find?, entries_ofRecords]
  by_cases hmem : name ∈ (definitions rs).map (·.2.text)
  · rw [List.lookup_graph _ (List.mem_eraseDups.2 hmem)]
    rfl
  · have hnone : (((definitions rs).map (·.2.text)).eraseDups.map fun k =>
        (k, firstPlace? (definitions rs) k)).lookup name = none := by
      rw [List.lookup_eq_none_iff]
      intro e he
      obtain ⟨k, hk, rfl⟩ := List.mem_map.1 he
      have hne : name ≠ k := fun h => hmem (h ▸ List.mem_eraseDups.1 hk)
      simpa using hne
    rw [hnone, firstPlace?_eq_none hmem]
    rfl

theorem length_repeatedLabels_add_size (known : LabelTable) (rs : List Record) :
    (repeatedLabels known rs).length + (rs.foldl addRecord known).size =
      known.size + (definitions rs).length := by
  induction rs generalizing known with
  | nil => simp [repeatedLabels, definitions]
  | cons r rs ih =>
    have hrest := ih (known.addRecord r)
    rw [List.foldl_cons]
    cases hl : r.label with
    | none =>
      rw [addRecord_of_none known hl] at hrest
      rw [definitions_cons_of_none hl]
      simpa only [repeatedLabels, hl, addRecord_of_none known hl] using hrest
    | some w =>
      rw [definitions_cons_of_some hl, List.length_cons]
      by_cases hk : known.contains w.text = true
      · rw [addRecord_of_known hl hk] at hrest ⊢
        simp only [repeatedLabels, hl, hk, if_true, addRecord_of_known hl hk, List.length_cons]
        omega
      · rw [Bool.not_eq_true] at hk
        have hsize : (known.addRecord r).size = known.size + 1 := by
          rw [size, entries_addRecord_of_new hl hk, List.length_append, List.length_singleton, size]
        simp only [repeatedLabels, hl, hk, Bool.false_eq_true, if_false]
        omega

theorem isIdentifier_of_mem_names {s : Source} {name : List CodePoint}
    (h : name ∈ (ofRecords s.records).names) :
    isIdentifier name = true ∧ ∀ m : Mnemonic, name ≠ m.text := by
  have hc : (ofRecords s.records).contains name = true := List.contains_iff_mem.2 h
  obtain ⟨r, hr, w, hl, rfl⟩ := (contains_ofRecords s.records name).1 hc
  obtain ⟨line, -, hread⟩ := Source.mem_records_iff.1 hr
  obtain ⟨hid, hno⟩ := Statement.isIdentifier_of_read? hread hl
  refine ⟨hid, fun m hm => ?_⟩
  rw [hm, Mnemonic.ofText?_text] at hno
  cases hno

end LabelTable

theorem tabulated_ofRecords (s : Source) :
    s.Tabulated (LabelTable.ofRecords s.records) (Analysis.duplicates s.records) where
  entries := LabelTable.entries_ofRecords s.records
  find := LabelTable.find?_ofRecords s.records
  identifier _ h := LabelTable.isIdentifier_of_mem_names h
  repeated := by
    have hrepeated := repeatedLabels_eq_filter .empty s.pairwise_line_records
    simp only [LabelTable.contains_empty, Bool.false_or] at hrepeated
    rw [Analysis.duplicates, hrepeated]
  length := by
    have hlength := LabelTable.length_repeatedLabels_add_size .empty s.records
    rw [Analysis.duplicates, List.length_map, LabelTable.ofRecords, hlength]
    exact Nat.zero_add _

/-- The labels of a text are entered into the table once each, in the order and with the place of their first
definitions, and every later definition is written into the log where it stands. -/
theorem tabulated_enterLabels {σ : Type} (hear : σ → Diagnostic → σ) (start : σ) (s : Source) :
    s.Tabulated (Log.enterLabels hear { heard := start } s.records).1
      (Log.enterLabels hear { heard := start } s.records).2.diagnostics := by
  rw [Log.enterLabels_eq, Log.writeAll_eq]
  exact tabulated_ofRecords s

example : (LabelTable.ofRecords (Source.named none (Text.toList "A OUT\nB DAT\nA HLT")).records).entries =
    [([.scalar 'A'], some ⟨0, 0, 1⟩), ([.scalar 'B'], some ⟨1, 0, 1⟩)] := by decide +kernel

end LittleMan
