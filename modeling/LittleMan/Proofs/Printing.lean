import LittleMan.CommandLine.Program
import LittleMan.Proofs.Protocol.ActionEdits
import Mathlib.Data.Nat.Digits.Defs

/-! What is printed about a text: each diagnostic, and below it the titles of its fixes. No text that fits
into memory has a diagnostic that cannot be printed. -/

namespace LittleMan

namespace Report

variable {s : Source} {labels : LabelTable}

end Report

/-- The number of columns and of lines that can be printed. -/
def Report.sizeLimit : Nat := 2 ^ 40

theorem Decimal.exists_text? {n : Nat} (h : n ≤ Report.sizeLimit) :
    ∃ t, Decimal.text? (n + 1) = some t := by
  have hlt : n + 1 < 10 ^ 13 := by
    rw [Report.sizeLimit] at h
    omega
  have hlength : (Nat.toDigits 10 (n + 1)).length ≤ 13 :=
    (Nat.length_toDigits_le_iff (by decide) (by decide)).2 hlt
  have habs : ((n : Int) + 1).natAbs = n + 1 := by omega
  have hle : (Nat.toDigits 10 ((n : Int) + 1).natAbs).length ≤ digitLimit := by
    rw [habs]
    exact Nat.le_trans hlength (by decide)
  exact ⟨_, if_pos hle⟩

theorem length_linesOf_le (t : List CodePoint) : (linesOf t).length ≤ t.length + 1 := by
  fun_induction linesOf t with
  | case1 => simp
  | case2 rest ih =>
    simp only [List.length_cons]
    omega
  | case3 c rest hne hc ih =>
    simp only [List.length_cons]
    omega
  | case4 c rest hne hc he ih => simp
  | case5 c rest hne hc line lines he ih =>
    rw [he] at ih
    simp only [List.length_cons] at ih ⊢
    omega

namespace Source

theorem exists_repeatLength {n : Int} (hneg : -1 ≤ n) (hn : n < Report.sizeLimit) :
    ∃ k, repeatLength n = .ok k := by
  have hbig : Int.pow 2 63 = 9223372036854775808 := by decide
  have hsize : Int.pow 2 40 = Report.sizeLimit := by decide
  refine ⟨n.toNat, ?_⟩
  rw [repeatLength, hbig, hsize, if_neg, if_neg]
  · omega
  · rw [Report.sizeLimit] at hn
    omega

variable {s : Source} {line : List CodePoint} {r : Record} {w : Word}

theorem exists_place {k col : Nat} (hk : k ≤ Report.sizeLimit) (hcol : col ≤ Report.sizeLimit)
    {span : Span} (hl : span.line = k) (hc : span.col = col) : ∃ text, s.place span = .ok text := by
  obtain ⟨line, hline⟩ := Decimal.exists_text? hk
  obtain ⟨column, hcolumn⟩ := Decimal.exists_text? hcol
  exact ⟨_, by simp only [place, hl, hc, hline, hcolumn]; rfl⟩

theorem exists_view {k col len : Nat} {span : Span} (hget : s.lines[k]? = some line)
    (hl : span.line = k) (hc : span.col = col) (hlen : span.len = len)
    (hcol : col < Report.sizeLimit) (hlt : len ≤ Report.sizeLimit) :
    ∃ text, s.view span = .ok text := by
  obtain ⟨before, hbefore⟩ := exists_repeatLength (n := span.col) (by omega) (by omega)
  obtain ⟨after, hafter⟩ := exists_repeatLength (n := span.len - 1) (by omega) (by omega)
  refine ⟨_, by simp only [view, hl, nth?_natCast, hget, viewLines, hbefore, hafter]; rfl⟩

end Source

namespace Report

variable {s : Source} {a : Analysis} {d : Diagnostic}

theorem exists_message {r : Record} {w : Word} (h : d.IsAbout r w) (hr : r ∈ s.records)
    (hsize : s.text.length < sizeLimit) (severity : Severity) (text : Text) (withLine : Bool) :
    ∃ printed, message severity text s d.span withLine = .ok printed := by
  obtain ⟨line, hline, hw⟩ := exists_line_of_mem_words hr (mem_words_of_subject? h.subject)
  obtain ⟨head, tail, hsplit, hcol⟩ := hw
  have hlt := (List.getElem?_eq_some_iff.1 hline).1
  have hcount := length_linesOf_le s.text
  obtain ⟨pre, line', post, hl⟩ := exists_lineAt (s.lines_eq ▸ hlt)
  obtain rfl : line' = line := Option.some.inj (hl.line?.symm.trans (s.lines_eq ▸ hline))
  have hlength : s.text.length = pre.length + (head.length + (w.text.length + tail.length) +
      post.length) := by
    simp only [hl.text_eq, hsplit, List.length_append]
  rw [← s.lines_eq] at hcount
  have hspan : d.span.line = r.line ∧ d.span.col = w.col ∧ d.span.len = w.text.length := by
    rw [h.span]
    exact ⟨rfl, rfl, rfl⟩
  obtain ⟨place, hplace⟩ := Source.exists_place (s := s) (by omega) (by omega) hspan.1 hspan.2.1
  obtain ⟨view, hview⟩ :=
    Source.exists_view hline hspan.1 hspan.2.1 hspan.2.2 (by omega) (by omega)
  simp only [message, hplace, hview]
  cases withLine with
  | false => exact ⟨_, rfl⟩
  | true => exact ⟨_, rfl⟩

end Report

end LittleMan
