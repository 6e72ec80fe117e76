import LittleMan.Proofs.Protocol.Writing
import LittleMan.Proofs.Words

/-! Diagnostics sent to a client and returned by it. Its columns go through UTF-16 code units and its
token is read off the text again; nothing of a diagnostic of the analysis is lost on the way. It cannot be
sent if its token has no encoding. -/

namespace LittleMan

theorem Point.ofJson_written (s : Source) {p : Position} {asTruth : Bool} (hcol : 0 ≤ p.col)
    (htruth : asTruth = true → p.line = 0 ∨ p.line = 1) :
    Point.ofJson s (p.written s asTruth) =
      .ok { Point.ofPosition p with lineAsTruth := asTruth } := by
  have hback : ofUnits (s.columnText p.line) (unitColumn (s.columnText p.line) p.col) = p.col := by
    obtain ⟨col, hcol⟩ := Int.eq_ofNat_of_zero_le hcol
    rw [hcol]
    exact ofUnits_unitColumn _ col
  have hnumber : (lineJson p.line asTruth).number? = some (.whole p.line) := by
    cases asTruth with
    | false => rfl
    | true => rcases htruth rfl with h | h <;> simp [h, lineJson, Json.number?]
  have hbool : (lineJson p.line asTruth).isBool = asTruth := by cases asTruth <;> rfl
  have hunits : ∀ n : Int, (Json.int n).number? = some (.whole n) := fun _ => rfl
  simp [Point.ofJson, Position.written, positionObject, Json.field, Json.lookup, Json.number, hnumber, hbool,
    hunits, textOfLine, columnOf, Point.ofPosition, hback, bind, Except.bind, pure, Except.pure]

theorem Point.rangeOfJson_written (s : Source) {span : Span} {asTruth : Bool} (hcol : 0 ≤ span.col)
    (hstop : 0 ≤ span.stopCol) (htruth : asTruth = true → span.line = 0 ∨ span.line = 1) :
    Point.rangeOfJson s (rangeWritten s span.start span.stop asTruth) =
      .ok ({ Point.ofPosition span.start with lineAsTruth := asTruth },
        { Point.ofPosition span.stop with lineAsTruth := asTruth }) := by
  have hfirst := Point.ofJson_written s (p := span.start) hcol htruth
  have hlast := Point.ofJson_written s (p := span.stop) hstop htruth
  simp only [Point.rangeOfJson, rangeWritten, rangeObject, Json.field, Json.lookup, if_true,
    Text.ofString_inj, String.reduceEq, if_false, hfirst, hlast, bind, Except.bind, pure, Except.pure]

theorem Word.FollowsAscii.isWritable_iff {s : Source} {w : Word} {k : Int}
    (h : w.FollowsAscii (s.columnText k)) :
    (w.span k).start.IsWritable s ∧ (w.span k).stop.IsWritable s ↔ IsEncodable w.text := by
  obtain ⟨head, tail, htext, hcol, hascii⟩ := h
  have hhead := isEncodable_of_ascii hascii
  have hstart : (w.span k).start.IsWritable s ↔ IsEncodable head := by
    simp [Position.IsWritable, Span.start, Word.span, htext, hcol]
  have hstop : (w.span k).stop.IsWritable s ↔ IsEncodable (head ++ w.text) := by
    have hend : (w.col + w.text.length : Int).toNat = (head ++ w.text).length := by
      rw [List.length_append]
      omega
    simp only [Position.IsWritable, Span.stop, Span.stopCol, Word.span, htext]
    rw [hend, ← List.append_assoc, List.take_left]
  rw [hstart, hstop, isEncodable_append]
  exact ⟨fun hw => hw.2.2, fun hw => ⟨hhead, hhead, hw⟩⟩

namespace Diagnostic

theorem candidatesOf_data (token : Json) (items : List Json) :
    candidatesOf (some (.obj [("token", token), ("candidates", .arr items)])) = items := rfl

/-- What can be said of a diagnostic that a client returns. It lies on a line of the text, though it may
end before it starts, and its token is told from the text under it. -/
structure Returnable (s : Source) (d : Diagnostic) : Prop where
  line : s.hasLine d.span.line = true
  col : 0 ≤ d.span.col
  stopCol : 0 ≤ d.span.stopCol
  truth : d.lineAsTruth = true → d.span.line = 0 ∨ d.span.line = 1
  token : d.token = tokenOf d.kind (slice (s.columnText d.span.line) d.span.col d.span.stopCol)
  severity : d.severity = .error

theorem Returnable.ofJson?_written {s : Source} {d : Diagnostic} (h : d.Returnable s) :
    ofJson? s (d.written s) = .ok (some d) := by
  have hkind : kindOf? (some (.str d.kind.code)) = some d.kind := Kind.ofCode?_code d.kind
  have hrange := Point.rangeOfJson_written s h.col h.stopCol h.truth
  have hspan : (⟨d.span.line, d.span.col, d.span.stopCol - d.span.col⟩ : Span) = d.span := by
    have hl : d.span.stopCol - d.span.col = d.span.len := by
      simp only [Span.stopCol]
      omega
    rw [hl]
  obtain ⟨hline, -, -, -, htoken, hsev⟩ := h
  obtain ⟨kind, message, span, token, candidates, severity, source, lineAsTruth⟩ := d
  simp only [Span.start, Span.stop, Point.ofPosition] at hline htoken hsev hkind hrange hspan
  subst htoken hsev
  simp [ofJson?, written, object, Json.field, Json.lookup, hkind, hrange, rebuild, Span.start, Span.stop,
    hline, hspan, candidatesOf_data, bind, Except.bind]

theorem returnable_of_mem {s : Source} {a : Analysis} {d : Diagnostic} (ha : analyze s = .ok a)
    (hd : d ∈ a.diagnostics) : d.Returnable s := by
  obtain ⟨r, hr, w, h⟩ := exists_isAbout ha hd
  obtain ⟨line, hline, hw⟩ := exists_line_of_mem_words hr (mem_words_of_subject? h.subject)
  have hlt := (List.getElem?_eq_some_iff.1 hline).1
  have hcol : d.span.col = w.col := by rw [h.span, Word.span]
  have hlen : d.span.len = w.text.length := by rw [h.span, Word.span]
  have htext : s.columnText d.span.line = line := by
    simp [h.span, Source.columnText, Word.span, hline]
  constructor
  case line => simp [h.span, Source.hasLine, Word.span, hlt]
  case col => omega
  case stopCol =>
    rw [Span.stopCol]
    omega
  case truth => simp [h.lineAsTruth]
  case token => rw [htext, h.span, hw.slice_eq, h.token]
  case severity => exact h.severity

theorem isEncodable_tokenOf (kind : Kind) (text : List CodePoint) :
    IsEncodable (tokenOf kind text) ↔ IsEncodable text := by
  unfold tokenOf
  split
  · simp [IsEncodable, CodePoint.isSurrogate]
  · rfl

/-- Only ASCII stands before a word, so the word itself decides whether a diagnostic of it can be sent. -/
theorem IsAbout.isWritable_iff {s : Source} {d : Diagnostic} {r : Record} {w : Word}
    (h : d.IsAbout r w) (hr : r ∈ s.records) : d.IsWritable s ↔ IsEncodable d.token := by
  obtain ⟨line, hline, hw⟩ := exists_line_followsAscii hr (mem_words_of_subject? h.subject)
  have htext : s.columnText r.line = line := by
    simp [Source.columnText, hline]
  rw [IsWritable, h.span, h.token, isEncodable_tokenOf]
  exact (htext ▸ hw : w.FollowsAscii (s.columnText r.line)).isWritable_iff

theorem toJson_of_mem {s : Source} {a : Analysis} {d : Diagnostic} (ha : analyze s = .ok a)
    (hd : d ∈ a.diagnostics) :
    d.toJson s = if IsEncodable d.token then .ok (d.written s) else .error .loneSurrogate := by
  obtain ⟨r, hr, w, h⟩ := exists_isAbout ha hd
  have hreturnable := returnable_of_mem ha hd
  rw [toJson_eq hreturnable.col hreturnable.stopCol]
  simp only [h.isWritable_iff hr]

/-- A diagnostic of the analysis comes back from the client as it was sent. It cannot be sent if there is a
surrogate on its own in the token. -/
theorem ofJson?_toJson_of_mem {s : Source} {a : Analysis} {d : Diagnostic} (ha : analyze s = .ok a)
    (hd : d ∈ a.diagnostics) :
    (IsEncodable d.token → ∃ v, d.toJson s = .ok v ∧ ofJson? s v = .ok (some d)) ∧
      (¬ IsEncodable d.token → d.toJson s = .error .loneSurrogate) := by
  rw [toJson_of_mem ha hd]
  refine ⟨fun h => ?_, fun h => if_neg h⟩
  exact ⟨d.written s, if_pos h, (returnable_of_mem ha hd).ofJson?_written⟩

/-- References to a name in which one character takes two code units, and to one with half a character. -/
def astralReference : Source :=
  Source.named (some "file:///a") (Text.toList "X DAT\rX LDA @𝄞P ;\rLDA " ++ [.ofNat 0xd800])

theorem exists_analysis_astralReference :
    ∃ a, analyze astralReference = .ok a ∧
      Analysis.undefinedReference 1 ⟨6, ['@', '𝄞', 'P']⟩ ∈ a.diagnostics ∧
      Analysis.undefinedLabel 2 ⟨4, [.ofNat 0xd800]⟩ ∈ a.diagnostics := by
  refine ⟨_, rfl, ?_⟩
  decide +kernel

theorem ofJson?_toJson_astralReference :
    ∃ a, analyze astralReference = .ok a ∧
      Analysis.undefinedReference 1 ⟨6, ['@', '𝄞', 'P']⟩ ∈ a.diagnostics ∧
      (∃ v, (Analysis.undefinedReference 1 ⟨6, ['@', '𝄞', 'P']⟩).toJson astralReference = .ok v ∧
        ofJson? astralReference v =
          .ok (some (Analysis.undefinedReference 1 ⟨6, ['@', '𝄞', 'P']⟩))) ∧
      Analysis.undefinedLabel 2 ⟨4, [.ofNat 0xd800]⟩ ∈ a.diagnostics ∧
      (Analysis.undefinedLabel 2 ⟨4, [.ofNat 0xd800]⟩).toJson astralReference =
        .error .loneSurrogate := by
  obtain ⟨a, ha, hd, hd'⟩ := exists_analysis_astralReference
  exact ⟨a, ha, hd, (ofJson?_toJson_of_mem ha hd).1 (by decide), hd',
    (ofJson?_toJson_of_mem ha hd').2 (by decide)⟩

/-- Not every diagnostic of an analysis can be sent. -/
theorem not_toJson_eq_ok : ¬ ∀ (s : Source) (a : Analysis) (d : Diagnostic), analyze s = .ok a →
    d ∈ a.diagnostics → ∃ v, d.toJson s = .ok v ∧ ofJson? s v = .ok (some d) := by
  intro h
  obtain ⟨a, ha, -, hd⟩ := exists_analysis_astralReference
  obtain ⟨v, hv, -⟩ := h _ a _ ha hd
  rw [toJson_of_mem ha hd, if_neg (by decide)] at hv
  cases hv

end Diagnostic

end LittleMan
