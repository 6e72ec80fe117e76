import LittleMan.Proofs.Session.ActionRequests

/-! Diagnostics that a client returns, with whatever columns it puts on them. One reading settles them: no
column is then negative or lies inside a character, and the token is told anew. What is written for the
diagnostic that was read is read as the same diagnostic, but a surrogate on its own before its columns keeps
it from being written. -/

namespace LittleMan

open Json Session

namespace Session

/-- The value is what is written for the diagnostic that is read from it. -/
def IsSettled (s : Source) (v : Json) : Prop :=
  ∃ d, Diagnostic.ofJson? s v = .ok (some d) ∧ d.toJson s = .ok v

theorem isSettled_written {s : Source} {d : Diagnostic} (h : d.Returnable s) (hw : d.IsWritable s) :
    IsSettled s (d.written s) := by
  refine ⟨d, h.ofJson?_written, ?_⟩
  rw [Diagnostic.toJson_eq h.col h.stopCol, if_pos hw]

/-- A diagnostic that is read from a client's value lies at columns that are not negative. What is written for
it is read as the same diagnostic, but nothing can be if a surrogate on its own stands before its start or
end. The diagnostics that the server sends along with its actions are settled. -/
theorem settled_by_reading (s : Source) :
    (∀ v d, Diagnostic.ofJson? s v = .ok (some d) →
      0 ≤ d.span.col ∧ 0 ≤ d.span.stopCol ∧
        (d.IsWritable s → ∃ w, d.toJson s = .ok w ∧ Diagnostic.ofJson? s w = .ok (some d)) ∧
        (¬ d.IsWritable s → d.toJson s = .error .loneSurrogate)) ∧
    ∀ params actions, codeActions s params = .ok actions → ∀ x ∈ actions, ∀ v, x.toJson s = .ok v →
      ∃ items, v.field "diagnostics" = .ok (.arr items) ∧ ∀ w ∈ items, IsSettled s w := by
  constructor
  · intro v d h
    have hreturnable := Diagnostic.returnable_of_ofJson? h
    have hwritten := Diagnostic.toJson_eq (s := s) hreturnable.col hreturnable.stopCol
    refine ⟨hreturnable.col, hreturnable.stopCol, fun hw => ?_, fun hw => ?_⟩
    · exact ⟨_, by rw [hwritten, if_pos hw], hreturnable.ofJson?_written⟩
    · rw [hwritten, if_neg hw]
  · intro params actions h x hx v hv
    obtain ⟨ds, wanted, hds, hpropose⟩ := exists_returned_of_codeActions h
    have hcounted := isCounted_of_mem_proposeActions hds hpropose hx
    rw [hcounted.toJson_eq] at hv
    split at hv
    · next hw =>
      obtain rfl := Except.ok.inj hv
      refine ⟨x.diagnostics.map (·.written s), rfl, fun w hmem => ?_⟩
      obtain ⟨d, hd, rfl⟩ := List.mem_map.1 hmem
      exact isSettled_written (hds d (mem_of_mem_proposeActions hpropose hx hd)) (hw.1 d hd)
    · cases hv

def astralOperand : Source := Source.named (some "file:///a") (Text.toList "LDA 𝄞 ;")

/-- A range that starts inside a character and ends before the line, on a diagnostic without a message. -/
def reversedReturn : Json :=
  .obj
    [("code", .str "NumericNeedsHash"), ("source", .str "LMC"),
      ("range", .obj
        [("start", .obj [("line", .int 0), ("character", .int 5)]),
          ("end", .obj [("line", .int 0), ("character", .int (-3))])]),
      ("data", .obj [("candidates", .str "ADD")])]

theorem settled_by_reading_reversedReturn :
    ∃ d w, Diagnostic.ofJson? astralOperand reversedReturn = .ok (some d) ∧ d.span = ⟨0, 5, -5⟩ ∧
      d.toJson astralOperand = .ok w ∧ Diagnostic.ofJson? astralOperand w = .ok (some d) ∧
      ∃ x v items, codeActions astralOperand
          (messageParams (actionRequest (.str "file:///a") [reversedReturn] [])) = .ok [x] ∧
        x.toJson astralOperand = .ok v ∧ v.field "diagnostics" = .ok (.arr items) ∧
        items ≠ [] ∧ ∀ w ∈ items, IsSettled astralOperand w := by
  obtain ⟨hread, hechoed⟩ := settled_by_reading astralOperand
  obtain ⟨d, x, v, hd, hspan, hw, hx, hv, hne⟩ : ∃ d x v,
      Diagnostic.ofJson? astralOperand reversedReturn = .ok (some d) ∧ d.span = ⟨0, 5, -5⟩ ∧
      d.IsWritable astralOperand ∧
      codeActions astralOperand
        (messageParams (actionRequest (.str "file:///a") [reversedReturn] [])) = .ok [x] ∧
      x.toJson astralOperand = .ok v ∧ v.field "diagnostics" ≠ .ok (.arr []) :=
    ⟨_, _, _, rfl, by decide +kernel, by decide +kernel, rfl, rfl, by decide +kernel⟩
  obtain ⟨w, hjson, hback⟩ := (hread _ _ hd).2.2.1 hw
  obtain ⟨items, hitems, hsettled⟩ := hechoed _ _ hx x List.mem_cons_self v hv
  refine ⟨d, w, hd, hspan, hjson, hback, x, v, items, hx, hv, hitems, ?_, hsettled⟩
  rintro rfl
  exact hne hitems

def halfComment : Source := Source.named none (Text.toList "HLT ; " ++ [.ofNat 0xd800])

def wholeLineReturn : Json :=
  .obj
    [("code", .str "NumericNeedsHash"),
      ("range", .obj
        [("start", .obj [("line", .int 0), ("character", .int 0)]),
          ("end", .obj [("line", .int 0), ("character", .int 7)])])]

/-- Not every diagnostic that is read from a client's value can be written. -/
theorem not_exists_toJson_of_ofJson? : ¬ ∀ (s : Source) (v : Json) (d : Diagnostic),
    Diagnostic.ofJson? s v = .ok (some d) →
      ∃ w, d.toJson s = .ok w ∧ Diagnostic.ofJson? s w = .ok (some d) := by
  intro h
  obtain ⟨d, hd, hw⟩ : ∃ d, Diagnostic.ofJson? halfComment wholeLineReturn = .ok (some d) ∧
      d.toJson halfComment = .error .loneSurrogate := ⟨_, rfl, by decide +kernel⟩
  obtain ⟨w, hjson, -⟩ := h _ _ _ hd
  rw [hw] at hjson
  cases hjson

end Session

end LittleMan
