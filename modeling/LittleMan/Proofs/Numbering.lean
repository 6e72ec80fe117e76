import LittleMan.Analysis

/-! The numbers of lines in records and diagnostics. Reading a text line by line, records keep their
content when lines are put in before them, and the analysis of a record moves along with its line. -/

namespace LittleMan

def Record.renumber (f : Nat → Nat) (r : Record) : Record := { r with line := f r.line }

def Span.renumber (f : Nat → Nat) (s : Span) : Span := { s with line := f s.line.toNat }

def Diagnostic.renumber (f : Nat → Nat) (d : Diagnostic) : Diagnostic :=
  { d with span := d.span.renumber f }

theorem readRecords_append (n : Nat) (xs ys : List (List CodePoint)) :
    readRecords n (xs ++ ys) = readRecords n xs ++ readRecords (n + xs.length) ys := by
  induction xs generalizing n with
  | nil => rfl
  | cons line xs ih =>
    have hn : n + (xs.length + 1) = n + 1 + xs.length := by omega
    simp only [List.cons_append, readRecords, ih, List.length_cons, hn]
    cases Statement.read? line <;> rfl

theorem readRecords_add (n k : Nat) (lines : List (List CodePoint)) :
    readRecords (n + k) lines = (readRecords n lines).map (Record.renumber (· + k)) := by
  induction lines generalizing n with
  | nil => rfl
  | cons line lines ih =>
    have hn : n + k + 1 = n + 1 + k := by omega
    simp only [readRecords, hn, ih]
    cases Statement.read? line <;> rfl

theorem mem_readRecords_iff {n : Nat} {lines : List (List CodePoint)} {r : Record} :
    r ∈ readRecords n lines ↔
      ∃ i line, lines[i]? = some line ∧ Statement.read? line = some r.toStatement ∧
        r.line = n + i := by
  induction lines generalizing n with
  | nil => simp [readRecords]
  | cons line lines ih =>
    have hrest : r ∈ readRecords (n + 1) lines ↔ ∃ i line', (line :: lines)[i + 1]? = some line' ∧
        Statement.read? line' = some r.toStatement ∧ r.line = n + (i + 1) := by
      simp only [ih, List.getElem?_cons_succ, Nat.add_assoc, Nat.add_comm 1]
    have hhead : (∃ s, Statement.read? line = some s ∧ r = { s with line := n }) ↔
        Statement.read? line = some r.toStatement ∧ r.line = n := by
      constructor
      · rintro ⟨s, hs, rfl⟩
        exact ⟨hs, rfl⟩
      · rintro ⟨hs, rfl⟩
        exact ⟨r.toStatement, hs, rfl⟩
    have hsplit : r ∈ readRecords n (line :: lines) ↔
        (∃ s, Statement.read? line = some s ∧ r = { s with line := n }) ∨
          r ∈ readRecords (n + 1) lines := by
      cases hs : Statement.read? line <;> simp [readRecords, hs]
    rw [hsplit, hhead, hrest]
    constructor
    · rintro (⟨hs, hl⟩ | ⟨i, line', hh⟩)
      · exact ⟨0, line, rfl, hs, hl⟩
      · exact ⟨i + 1, line', hh⟩
    · rintro ⟨i, line', hi, hs, hl⟩
      cases i with
      | zero =>
        obtain rfl : line = line' := by simpa using hi
        exact Or.inl ⟨hs, hl⟩
      | succ i => exact Or.inr ⟨i, line', hi, hs, hl⟩

theorem le_line_of_mem_readRecords {n : Nat} {lines : List (List CodePoint)} {r : Record}
    (h : r ∈ readRecords n lines) : n ≤ r.line := by
  obtain ⟨i, line, -, -, hl⟩ := mem_readRecords_iff.1 h
  omega

theorem line_lt_of_mem_readRecords {n : Nat} {lines : List (List CodePoint)} {r : Record}
    (h : r ∈ readRecords n lines) : r.line < n + lines.length := by
  obtain ⟨i, line, hi, -, hl⟩ := mem_readRecords_iff.1 h
  have hlt := (List.getElem?_eq_some_iff.1 hi).1
  omega

theorem pairwise_line_readRecords (n : Nat) (lines : List (List CodePoint)) :
    (readRecords n lines).Pairwise fun a b => a.line < b.line := by
  induction lines generalizing n with
  | nil => exact List.Pairwise.nil
  | cons line lines ih =>
    rw [readRecords]
    split
    · refine List.Pairwise.cons (fun r hr => ?_) (ih (n + 1))
      exact Nat.lt_of_succ_le (le_line_of_mem_readRecords hr)
    · exact ih (n + 1)

theorem Source.pairwise_line_records (s : Source) :
    s.records.Pairwise fun a b => a.line < b.line :=
  pairwise_line_readRecords 0 s.lines

theorem Source.mem_records_iff {s : Source} {r : Record} :
    r ∈ s.records ↔
      ∃ line, (linesOf s.text)[r.line]? = some line ∧
        Statement.read? line = some r.toStatement := by
  rw [records, mem_readRecords_iff, s.lines_eq]
  constructor
  · rintro ⟨i, line, hi, hs, hl⟩
    rw [Nat.zero_add] at hl
    exact ⟨line, hl ▸ hi, hs⟩
  · rintro ⟨line, hi, hs⟩
    exact ⟨r.line, line, hi, hs, (Nat.zero_add _).symm⟩

theorem analyze_congr {s s' : Source} (h : s'.lines = s.lines) : analyze s' = analyze s := by
  have hrecords : s'.records = s.records := by rw [Source.records, Source.records, h]
  rw [analyze, analyze, analyzeAfter, analyzeAfter, hrecords]

theorem Source.eq_of_line_eq {s : Source} {a b : Record} (ha : a ∈ s.records)
    (hb : b ∈ s.records) (h : a.line = b.line) : a = b := by
  obtain ⟨x, hx, hsa⟩ := mem_records_iff.1 ha
  obtain ⟨y, hy, hsb⟩ := mem_records_iff.1 hb
  rw [h] at hx
  obtain rfl := Option.some.inj (hx.symm.trans hy)
  have hs := Option.some.inj (hsa.symm.trans hsb)
  cases a
  cases b
  simp_all

end LittleMan
