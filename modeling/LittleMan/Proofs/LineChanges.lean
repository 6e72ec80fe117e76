import LittleMan.Proofs.Reanalysis
import LittleMan.Proofs.Words
import Mathlib.Data.List.Forall2

/-! Changes to the lines of a text that its records do not show. The records are those of before on other
lines, so the same is reported, on what the lines have become. -/

namespace LittleMan

theorem Statement.read?_congr {line line' : List CodePoint} (h : codePart line' = codePart line) :
    read? line' = read? line := by
  simp only [read?, h]

/-- What becomes of one line, or a line that is put in. -/
inductive LineChange where
  | keep (old new : List CodePoint)
  | insert (line : List CodePoint)
  | delete (line : List CodePoint)

namespace LineChange

/-- Only a comment changes, or a line that is read as no record comes or goes. -/
def IsSilent : LineChange → Prop
  | keep old new => codePart new = codePart old
  | insert line | delete line => Statement.read? line = none

instance : DecidablePred IsSilent
  | keep old new => inferInstanceAs (Decidable (codePart new = codePart old))
  | insert line | delete line => inferInstanceAs (Decidable (Statement.read? line = none))

def before : List LineChange → List (List CodePoint)
  | [] => []
  | keep old _ :: rest | delete old :: rest => old :: before rest
  | insert _ :: rest => before rest

def after : List LineChange → List (List CodePoint)
  | [] => []
  | keep _ new :: rest | insert new :: rest => new :: after rest
  | delete _ :: rest => after rest

/-- The number that a line has after the changes. That of a deleted line goes to the next one. -/
def newNumber : List LineChange → Nat → Nat
  | [], n => n
  | keep _ _ :: _, 0 | delete _ :: _, 0 => 0
  | keep _ _ :: rest, n + 1 => newNumber rest n + 1
  | delete _ :: rest, n + 1 => newNumber rest n
  | insert _ :: rest, n => newNumber rest n + 1

/-- One diagnostic is another one on what a kept line has become. -/
def Moves (changes : List LineChange) (d d' : Diagnostic) : Prop :=
  ∃ upper old new lower, changes = upper ++ keep old new :: lower ∧
    d.span.line = (before upper).length ∧
    d' = { d with span := { d.span with line := (after upper).length } }

theorem newNumber_append_keep (upper lower : List LineChange) (old new : List CodePoint) :
    newNumber (upper ++ keep old new :: lower) (before upper).length = (after upper).length := by
  induction upper with
  | nil => rfl
  | cons c upper ih => cases c <;> simp [newNumber, before, after, ih]

theorem exists_of_getElem?_before {changes : List LineChange} {i : Nat} {line : List CodePoint}
    (h : (before changes)[i]? = some line) :
    ∃ upper c lower, changes = upper ++ c :: lower ∧ i = (before upper).length ∧
      (c = delete line ∨ ∃ new, c = keep line new) := by
  induction changes generalizing i with
  | nil => simp [before] at h
  | cons c changes ih =>
    cases c with
    | insert new =>
      obtain ⟨upper, c, lower, rfl, rfl, hc⟩ := ih h
      exact ⟨insert new :: upper, c, lower, rfl, rfl, hc⟩
    | keep old new =>
      cases i with
      | zero =>
        obtain rfl : old = line := by simpa [before] using h
        exact ⟨[], keep old new, changes, rfl, rfl, Or.inr ⟨new, rfl⟩⟩
      | succ i =>
        obtain ⟨upper, c, lower, rfl, rfl, hc⟩ := ih (i := i) h
        exact ⟨keep old new :: upper, c, lower, rfl, rfl, hc⟩
    | delete old =>
      cases i with
      | zero =>
        obtain rfl : old = line := by simpa [before] using h
        exact ⟨[], delete old, changes, rfl, rfl, Or.inl rfl⟩
      | succ i =>
        obtain ⟨upper, c, lower, rfl, rfl, hc⟩ := ih (i := i) h
        exact ⟨delete old :: upper, c, lower, rfl, rfl, hc⟩

theorem readRecords_after {changes : List LineChange} (h : ∀ c ∈ changes, c.IsSilent) :
    readRecords 0 (after changes) =
      (readRecords 0 (before changes)).map (Record.renumber (newNumber changes)) := by
  induction changes with
  | nil => rfl
  | cons c changes ih =>
    have hc := h c List.mem_cons_self
    have hrest := ih fun c' hm => h c' (List.mem_cons_of_mem _ hm)
    have hbelow : ∀ lines, readRecords (0 + 1) lines =
        (readRecords 0 lines).map (Record.renumber (· + 1)) := readRecords_add 0 1
    cases c with
    | keep old new =>
      have hread : Statement.read? new = Statement.read? old := Statement.read?_congr hc
      have hlater : readRecords (0 + 1) (after changes) = (readRecords (0 + 1) (before changes)).map
          (Record.renumber (newNumber (keep old new :: changes))) := by
        rw [hbelow, hbelow, hrest, List.map_map, List.map_map]
        rfl
      simp only [after, before, readRecords, hread, hlater]
      cases Statement.read? old with
      | none => rfl
      | some st => rfl
    | insert line =>
      have hread : Statement.read? line = none := hc
      simp only [after, before, readRecords, hread, hbelow, hrest, List.map_map]
      rfl
    | delete line =>
      have hread : Statement.read? line = none := hc
      simp only [after, before, readRecords, hread, hbelow, hrest, List.map_map]
      rfl

section

variable {s s' : Source} {a : Analysis} {changes : List LineChange}

theorem moves_renumber (hs : s.lines = before changes) (h : ∀ c ∈ changes, c.IsSilent)
    (ha : analyze s = .ok a) {d : Diagnostic} (hd : d ∈ a.diagnostics) :
    Moves changes d (d.renumber (newNumber changes)) := by
  obtain ⟨r, hr, w, habout⟩ := exists_isAbout ha hd
  obtain ⟨line, hline, hread⟩ := Source.mem_records_iff.1 hr
  rw [← s.lines_eq, hs] at hline
  have hnumber : d.span.line = r.line := by rw [habout.span, Word.span]
  obtain ⟨upper, c, lower, rfl, hi, hc⟩ := exists_of_getElem?_before hline
  have hsilent := h c (List.mem_append_right _ List.mem_cons_self)
  rcases hc with rfl | ⟨new, rfl⟩
  · exact absurd (hsilent.symm.trans hread) (by simp)
  · refine ⟨upper, line, new, lower, rfl, by rw [hnumber, hi], ?_⟩
    rw [Diagnostic.renumber, Span.renumber, hnumber, Int.toNat_natCast, hi, newNumber_append_keep]

/-- Silent changes leave what is reported as it is, on what the lines have become. -/
theorem analyze_of_silent_changes (hs : s.lines = before changes) (hs' : s'.lines = after changes)
    (h : ∀ c ∈ changes, c.IsSilent) :
    ((∃ a, analyze s = .ok a) ↔ ∃ a', analyze s' = .ok a') ∧
      ∀ a a', analyze s = .ok a → analyze s' = .ok a' →
        List.Forall₂ (Moves changes) a.diagnostics a'.diagnostics := by
  have hrecords : s'.records = s.records.map (Record.renumber (newNumber changes)) := by
    rw [Source.records, Source.records, hs, hs', readRecords_after h]
  have hsame := Analysis.analyze_of_renumbered hrecords
  cases ha : analyze s with
  | error e =>
    cases ha' : analyze s' with
    | error e' => simp
    | ok a' => simp [ha, ha', Except.map] at hsame
  | ok a =>
    cases ha' : analyze s' with
    | error e' => simp [ha, ha', Except.map] at hsame
    | ok a' =>
      have hmap : a'.diagnostics = a.diagnostics.map (Diagnostic.renumber (newNumber changes)) := by
        simpa [ha, ha', Except.map] using hsame
      refine ⟨⟨fun _ => ⟨a', rfl⟩, fun _ => ⟨a, rfl⟩⟩, ?_⟩
      rintro _ _ ⟨⟩ ⟨⟩
      rw [hmap, List.forall₂_map_right_iff, List.forall₂_same]
      exact fun d hd => moves_renumber hs h ha hd

end

end LineChange

end LittleMan
