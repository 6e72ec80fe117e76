import LittleMan.Proofs.Text.Columns
import LittleMan.Protocol.Exchange

/-! Values written for a client. Only columns can keep one from being written: it is, just if the text before
each of its columns has an encoding. -/

namespace LittleMan

theorem mapM_eq_ite {α β : Type} {f : α → Except Fault β} {g : α → β} {P : α → Prop} [DecidablePred P]
    {e : Fault} {xs : List α} (h : ∀ x ∈ xs, f x = if P x then .ok (g x) else .error e) :
    xs.mapM f = if ∀ x ∈ xs, P x then .ok (xs.map g) else .error e := by
  induction xs with
  | nil => simp [pure, Except.pure]
  | cons x xs ih =>
    have hx := h x List.mem_cons_self
    have hxs := ih fun y hy => h y (List.mem_cons_of_mem x hy)
    rw [List.mapM_cons, hx, hxs]
    by_cases hhead : P x
    · have hall : (∀ y ∈ x :: xs, P y) ↔ ∀ y ∈ xs, P y := by simp [hhead]
      by_cases htail : ∀ y ∈ xs, P y
      · rw [if_pos hhead, if_pos htail, if_pos (hall.2 htail)]
        rfl
      · rw [if_pos hhead, if_neg htail, if_neg fun hp => htail (hall.1 hp)]
        rfl
    · have hnone : ¬ ∀ y ∈ x :: xs, P y := fun hp => hhead (hp x List.mem_cons_self)
      rw [if_neg hhead, if_neg hnone]
      rfl

theorem exists_error_of_mapM {α β : Type} {f : α → Except Fault β} {xs : List α} {e : Fault}
    (h : xs.mapM f = .error e) : ∃ x ∈ xs, f x = .error e := by
  induction xs with
  | nil => cases h
  | cons x xs ih =>
    rw [List.mapM_cons] at h
    rcases bind_eq_error_iff.1 h with hx | ⟨y, -, h⟩
    · exact ⟨x, List.mem_cons_self, hx⟩
    · rcases bind_eq_error_iff.1 h with hxs | ⟨ys, -, h⟩
      · obtain ⟨z, hz, he⟩ := ih hxs
        exact ⟨z, List.mem_cons_of_mem x hz, he⟩
      · cases h

variable {s : Source}

/-- The text before a position has an encoding. -/
def Position.IsWritable (p : Position) (s : Source) : Prop :=
  IsEncodable ((s.columnText p.line).take p.col.toNat)

instance (p : Position) (s : Source) : Decidable (p.IsWritable s) :=
  inferInstanceAs (Decidable (IsEncodable _))

namespace Position

def written (s : Source) (p : Position) (asTruth : Bool) : Json :=
  positionObject p.line asTruth (unitColumn (s.columnText p.line) p.col)

theorem toJson_eq {p : Position} (hcol : 0 ≤ p.col) (asTruth : Bool) :
    p.toJson s asTruth =
      if p.IsWritable s then .ok (p.written s asTruth) else .error .loneSurrogate := by
  obtain ⟨line, col⟩ := p
  obtain ⟨col, rfl⟩ := Int.eq_ofNat_of_zero_le hcol
  have htake : (⟨line, col⟩ : Position).IsWritable s ↔ IsEncodable ((s.columnText line).take col) :=
    Iff.rfl
  by_cases h : IsEncodable ((s.columnText line).take col)
  · rw [toJson, toUnits_of_isEncodable h, if_pos (htake.2 h)]
    rfl
  · rw [toJson, toUnits_natCast, if_neg h, if_neg fun hp => h (htake.1 hp)]
    rfl

theorem toJson_error {p : Position} {asTruth : Bool} {e : Fault} (h : p.toJson s asTruth = .error e) :
    e = .loneSurrogate := by
  rw [toJson, toUnits] at h
  split at h
  · exact (Except.error.inj h).symm
  · cases h

end Position

def rangeWritten (s : Source) (start stop : Position) (asTruth : Bool) : Json :=
  rangeObject (start.written s asTruth) (stop.written s asTruth)

theorem rangeJson_eq {start stop : Position} (hstart : 0 ≤ start.col) (hstop : 0 ≤ stop.col)
    (asTruth : Bool) :
    rangeJson s start stop asTruth =
      if start.IsWritable s ∧ stop.IsWritable s then .ok (rangeWritten s start stop asTruth)
      else .error .loneSurrogate := by
  rw [rangeJson, Position.toJson_eq hstart, Position.toJson_eq hstop]
  by_cases h : start.IsWritable s
  · by_cases h' : stop.IsWritable s
    · simp only [h, h', and_self, if_true]
      rfl
    · simp only [h, h', and_false, if_true, if_false]
      rfl
  · simp only [h, false_and, if_false]
    rfl

theorem rangeJson_error {start stop : Position} {asTruth : Bool} {e : Fault}
    (h : rangeJson s start stop asTruth = .error e) : e = .loneSurrogate := by
  rcases bind_eq_error_iff.1 h with h | ⟨first, -, h⟩
  · exact Position.toJson_error h
  · rcases bind_eq_error_iff.1 h with h | ⟨last, -, h⟩
    · exact Position.toJson_error h
    · cases h

namespace Diagnostic

variable {d : Diagnostic}

def IsWritable (d : Diagnostic) (s : Source) : Prop :=
  d.span.start.IsWritable s ∧ d.span.stop.IsWritable s

instance (d : Diagnostic) (s : Source) : Decidable (d.IsWritable s) :=
  inferInstanceAs (Decidable (_ ∧ _))

def written (s : Source) (d : Diagnostic) : Json :=
  d.object (rangeWritten s d.span.start d.span.stop d.lineAsTruth)

theorem toJson_eq (hcol : 0 ≤ d.span.col) (hstop : 0 ≤ d.span.stopCol) :
    d.toJson s = if d.IsWritable s then .ok (d.written s) else .error .loneSurrogate := by
  have hfirst : 0 ≤ d.span.start.col := hcol
  have hlast : 0 ≤ d.span.stop.col := hstop
  have hrange := rangeJson_eq (s := s) hfirst hlast d.lineAsTruth
  by_cases h : d.span.start.IsWritable s ∧ d.span.stop.IsWritable s
  · simp only [toJson, Span.toJson, hrange, IsWritable, h, and_self, if_true]
    rfl
  · simp only [toJson, Span.toJson, hrange, IsWritable, h, if_false]
    rfl

theorem toJson_error {e : Fault} (h : d.toJson s = .error e) : e = .loneSurrogate :=
  rangeJson_error (map_eq_error_iff.1 h)

end Diagnostic

namespace Edit

variable {e : Edit}

def IsWritable (e : Edit) (s : Source) : Prop := e.start.IsWritable s ∧ e.stop.IsWritable s

instance (e : Edit) (s : Source) : Decidable (e.IsWritable s) := inferInstanceAs (Decidable (_ ∧ _))

def written (s : Source) (e : Edit) : Json := e.object (rangeWritten s e.start e.stop e.lineAsTruth)

theorem toJson_eq (hstart : 0 ≤ e.start.col) (hstop : 0 ≤ e.stop.col) :
    e.toJson s = if e.IsWritable s then .ok (e.written s) else .error .loneSurrogate := by
  by_cases h : e.start.IsWritable s ∧ e.stop.IsWritable s
  · simp only [toJson, rangeJson_eq hstart hstop, IsWritable, h, and_self, if_true]
    rfl
  · simp only [toJson, rangeJson_eq hstart hstop, IsWritable, h, if_false]
    rfl

theorem toJson_error {f : Fault} (h : e.toJson s = .error f) : f = .loneSurrogate :=
  rangeJson_error (map_eq_error_iff.1 h)

end Edit

namespace Action

variable {a : Action}

def IsWritable (a : Action) (s : Source) : Prop :=
  (∀ d ∈ a.diagnostics, d.IsWritable s) ∧ ∀ e ∈ a.edits, e.IsWritable s

instance (a : Action) (s : Source) : Decidable (a.IsWritable s) := inferInstanceAs (Decidable (_ ∧ _))

def written (s : Source) (a : Action) : Json :=
  a.object (a.diagnostics.map (·.written s)) (a.edits.map (·.written s))

/-- The columns of an action are counted from the start of their lines. -/
structure IsCounted (a : Action) : Prop where
  diagnostics : ∀ d ∈ a.diagnostics, 0 ≤ d.span.col ∧ 0 ≤ d.span.stopCol
  edits : ∀ e ∈ a.edits, 0 ≤ e.start.col ∧ 0 ≤ e.stop.col

theorem IsCounted.toJson_eq (h : a.IsCounted) :
    a.toJson s = if a.IsWritable s then .ok (a.written s) else .error .loneSurrogate := by
  have hdiagnostics := mapM_eq_ite (f := Diagnostic.toJson s) fun d hd =>
    Diagnostic.toJson_eq (h.diagnostics d hd).1 (h.diagnostics d hd).2
  have hedits := mapM_eq_ite (f := Edit.toJson s) fun e he =>
    Edit.toJson_eq (h.edits e he).1 (h.edits e he).2
  rw [toJson, hdiagnostics, hedits]
  by_cases hd : ∀ d ∈ a.diagnostics, d.IsWritable s
  · by_cases he : ∀ e ∈ a.edits, e.IsWritable s
    · rw [if_pos hd, if_pos he, if_pos ⟨hd, he⟩]
      rfl
    · have hw : ¬ a.IsWritable s := fun hw => he hw.2
      rw [if_pos hd, if_neg he, if_neg hw]
      rfl
  · have hw : ¬ a.IsWritable s := fun hw => hd hw.1
    rw [if_neg hd, if_neg hw]
    rfl

theorem toJson_error {e : Fault} (h : a.toJson s = .error e) : e = .loneSurrogate := by
  rcases bind_eq_error_iff.1 h with h | ⟨diagnostics, -, h⟩
  · obtain ⟨d, -, hd⟩ := exists_error_of_mapM h
    exact Diagnostic.toJson_error hd
  · rcases bind_eq_error_iff.1 h with h | ⟨edits, -, h⟩
    · obtain ⟨x, -, hx⟩ := exists_error_of_mapM h
      exact Edit.toJson_error hx
    · cases h

end Action

end LittleMan
