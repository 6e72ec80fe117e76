import LittleMan.Record

/-! The labels of a program, in the order of their first definition. -/

namespace LittleMan

namespace LabelTable

/-- The entries after a definition: a known name keeps its place in the order. -/
def insert (name : List CodePoint) (span : Option Span) :
    List (List CodePoint × Option Span) → List (List CodePoint × Option Span)
  | [] => [(name, span)]
  | (k, s) :: rest => if k = name then (k, span) :: rest else (k, s) :: insert name span rest

theorem mem_names_insert {name k : List CodePoint} {span : Option Span}
    {entries : List (List CodePoint × Option Span)} :
    k ∈ (insert name span entries).map (·.1) ↔ k = name ∨ k ∈ entries.map (·.1) := by
  induction entries with
  | nil => simp [insert]
  | cons e rest ih =>
    by_cases h : e.1 = name
    · simp [insert, h]
    · simp only [insert, h, if_false, List.map_cons, List.mem_cons, ih]
      exact or_left_comm

theorem nodup_names_insert {name : List CodePoint} {span : Option Span}
    {entries : List (List CodePoint × Option Span)} (h : (entries.map (·.1)).Nodup) :
    ((insert name span entries).map (·.1)).Nodup := by
  induction entries with
  | nil => simp [insert]
  | cons e rest ih =>
    simp only [List.map_cons, List.nodup_cons] at h
    by_cases he : e.1 = name
    · simp only [insert, he, if_true, List.map_cons, List.nodup_cons]
      exact ⟨he ▸ h.1, h.2⟩
    · simp only [insert, he, if_false, List.map_cons, List.nodup_cons]
      refine ⟨fun hm => ?_, ih h.2⟩
      rcases mem_names_insert.1 hm with hm | hm
      · exact he hm
      · exact h.1 hm

end LabelTable

/-- Labels and where they are defined; a label that is only known by name has no place. Every name
occurs once. -/
@[ext] structure LabelTable where
  entries : List (List CodePoint × Option Span)
  nodup : (entries.map (·.1)).Nodup
  deriving DecidableEq, Repr

namespace LabelTable

def empty : LabelTable := ⟨[], List.nodup_nil⟩

def size (t : LabelTable) : Nat := t.entries.length

def names (t : LabelTable) : List (List CodePoint) := t.entries.map (·.1)

def contains (t : LabelTable) (name : List CodePoint) : Bool := t.names.contains name

def find? (t : LabelTable) (name : List CodePoint) : Option Span :=
  (t.entries.lookup name).join

def define (t : LabelTable) (name : List CodePoint) (span : Option Span) : LabelTable :=
  ⟨insert name span t.entries, nodup_names_insert t.nodup⟩

def ofNames (names : List (List CodePoint)) : LabelTable :=
  names.foldl (fun t name => t.define name none) .empty

def addRecord (t : LabelTable) (r : Record) : LabelTable :=
  match r.label with
  | some w => if t.contains w.text then t else t.define w.text (some (w.span r.line))
  | none => t

/-- The labels of consecutive records, each with its first definition. -/
def ofRecords (records : List Record) : LabelTable := records.foldl addRecord .empty

@[simp] theorem contains_empty (k : List CodePoint) : empty.contains k = false := rfl

@[simp] theorem contains_define (t : LabelTable) (name k : List CodePoint) (span : Option Span) :
    (t.define name span).contains k = true ↔ k = name ∨ t.contains k = true := by
  simp only [contains, names, define, List.contains_iff_mem]
  exact mem_names_insert

theorem contains_ofRecords (records : List Record) (k : List CodePoint) :
    (ofRecords records).contains k = true ↔ ∃ r ∈ records, ∃ w, r.label = some w ∧ w.text = k := by
  suffices h : ∀ t : LabelTable, (records.foldl addRecord t).contains k = true ↔
      t.contains k = true ∨ ∃ r ∈ records, ∃ w, r.label = some w ∧ w.text = k by
    rw [ofRecords, h]
    simp
  induction records with
  | nil => simp
  | cons r rest ih =>
    intro t
    simp only [List.foldl_cons, ih, List.mem_cons, exists_eq_or_imp, ← or_assoc]
    refine or_congr_left ?_
    cases hl : r.label with
    | none => simp [addRecord, hl]
    | some w =>
      by_cases hk : t.contains w.text = true
      · simp only [addRecord, hl, hk, if_true]
        refine ⟨Or.inl, ?_⟩
        rintro (h | ⟨v, hv, rfl⟩)
        · exact h
        · exact Option.some.inj hv ▸ hk
      · simp only [addRecord, hl, hk, Bool.false_eq_true, if_false, contains_define]
        constructor
        · rintro (rfl | h)
          · exact Or.inr ⟨w, rfl, rfl⟩
          · exact Or.inl h
        · rintro (h | ⟨v, hv, rfl⟩)
          · exact Or.inr h
          · exact Or.inl (congrArg Word.text (Option.some.inj hv).symm)

end LabelTable

/-- The labels that are already defined where they occur again, with their lines. `known` holds the
labels of the records before. -/
def repeatedLabels (known : LabelTable) : List Record → List (Nat × Word)
  | [] => []
  | r :: rest =>
    let later := repeatedLabels (known.addRecord r) rest
    match r.label with
    | some w => if known.contains w.text then (r.line, w) :: later else later
    | none => later

end LittleMan
