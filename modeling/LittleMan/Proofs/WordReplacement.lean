import LittleMan.Proofs.Labels
import LittleMan.Proofs.LineByLine
import LittleMan.Proofs.Text.Splice
import Mathlib.Data.List.Basic

/-! Another text in the place of one word of a record. Where the line is read with that text as well, the
records of the other lines stay; where the label stays, so does all that is reported of them. -/

namespace LittleMan

open Analysis

variable {s s' : Source} {a : Analysis} {r r' : Record} {w : Word} {v : List CodePoint}
  {before after : List Record}

theorem records_of_lines {lines : List (List CodePoint)} {line : List CodePoint} {k : Nat}
    (hlines : s.lines = lines.take k ++ line :: lines.drop (k + 1)) (hk : k < lines.length)
    (hread : Statement.read? line = some r.toStatement) (hr : r.line = k) :
    s.records = readRecords 0 (lines.take k) ++ r :: readRecords (k + 1) (lines.drop (k + 1)) := by
  have hlen : (lines.take k).length = k := List.length_take_of_le (Nat.le_of_lt hk)
  rw [Source.records, hlines, readRecords_append, hlen, Nat.zero_add, readRecords, hread, ← hr]

theorem exists_text_replace_word (hs : s.records = before ++ r :: after)
    (hplace : ∀ line, Statement.read? line = some r.toStatement →
      ∃ head tail, line = head ++ (w.text ++ tail) ∧ w.col = head.length ∧
        Statement.read? (head ++ (v ++ tail)) = some r'.toStatement)
    (hline : r'.line = r.line) (hne : v ≠ []) (hvr : .scalar '\r' ∉ v) (hvn : .scalar '\n' ∉ v) :
    ∃ text, (Edit.replace (w.span r.line) v).textAfter s = some text ∧
      (s.withText text).records = before ++ r' :: after := by
  have hr : r ∈ s.records := by simp [hs]
  obtain ⟨line, hat, hread⟩ := Source.mem_records_iff.1 hr
  have hk := (List.getElem?_eq_some_iff.1 hat).1
  obtain ⟨pre, line', post, hl⟩ := exists_lineAt hk
  obtain rfl := Option.some.inj (hat.symm.trans hl.line?)
  obtain ⟨head, tail, rfl, hcol, hread'⟩ := hplace line hread
  have hstart : (Edit.replace (w.span r.line) v).start = ⟨r.line, head.length⟩ := by
    simp [Edit.replace, Span.start, Word.span, hcol]
  have hstop : (Edit.replace (w.span r.line) v).stop =
      ⟨r.line, (head.length + w.text.length : Nat)⟩ := by
    simp [Edit.replace, Span.stop, Span.stopCol, Word.span, hcol]
  have htext := Edit.textAfter_of_lineAt hl hstart hstop (Nat.le_add_right _ _) (by simp)
  have hnew : (head ++ (w.text ++ tail)).take head.length ++ v ++
      (head ++ (w.text ++ tail)).drop (head.length + w.text.length) = head ++ (v ++ tail) := by
    rw [List.take_left, List.drop_length_add_append, List.drop_left, List.append_assoc]
  have htexteq : (Edit.replace (w.span r.line) v).text = v := rfl
  rw [htexteq, hnew] at htext
  refine ⟨_, htext, ?_⟩
  have hbreak := hl.no_break
  simp only [List.mem_append, not_or] at hbreak
  have hlines : linesOf (pre ++ ((head ++ (v ++ tail)) ++ post)) =
      (linesOf s.text).take r.line ++ (head ++ (v ++ tail)) :: (linesOf s.text).drop (r.line + 1) := by
    apply hl.linesOf_replace
    · simp [hne]
    · simp [hbreak, hvr]
    · simp [hbreak, hvn]
  have hold : s.lines = (linesOf s.text).take r.line ++
      (head ++ (w.text ++ tail)) :: (linesOf s.text).drop (r.line + 1) := by
    have hdrop := List.drop_eq_getElem?_toList_append (l := linesOf s.text) (i := r.line)
    rw [hat, Option.toList_some, List.singleton_append] at hdrop
    rw [← hdrop, List.take_append_drop, s.lines_eq]
  have hsplit := records_of_lines hold hk hread rfl
  have hp := s.pairwise_line_records
  rw [hs, List.pairwise_append, List.pairwise_cons] at hp
  have hbefore : r ∉ before := fun hm => Nat.lt_irrefl _ (hp.2.2 r hm r List.mem_cons_self)
  have hafter : r ∉ after := fun hm => Nat.lt_irrefl _ (hp.2.1.1 r hm)
  obtain ⟨hab, -, hbe⟩ :=
    (List.append_cons_inj_of_notMem hbefore hafter).1 (hs.symm.trans hsplit)
  rw [hab, hbe]
  exact records_of_lines (s := s.withText _) hlines hk hread' hline

theorem analyze_replace_record {xs ys zs : List Diagnostic} (ha : analyze s = .ok a)
    (hs : s.records = before ++ r :: after) (hs' : s'.records = before ++ r' :: after)
    (hlabel : r'.label = r.label) (hline : r'.line = r.line)
    (hx : inspectRecords a.labels before = .ok xs) (hz : inspectRecord a.labels r' = .ok zs)
    (hy : inspectRecords a.labels after = .ok ys) :
    ∃ a', analyze s' = .ok a' ∧ a'.labels = a.labels ∧
      a'.diagnostics = duplicates s.records ++ (xs ++ (zs ++ ys)) := by
  have hsame : SameLabels id s.records s'.records := by
    rw [hs, hs']
    exact sameLabels_replace before after hlabel hline
  have hlabels : LabelTable.ofRecords s'.records = a.labels := by
    rw [labels_eq_of_analyze ha, hsame.ofRecords_eq]
  have hdup : duplicates s'.records = duplicates s.records := by
    rw [duplicates, hsame.repeatedLabels .empty .empty fun _ _ => rfl]
    simp [duplicates]
  have hrest : inspectRecords (LabelTable.ofRecords s'.records) s'.records =
      .ok (xs ++ (zs ++ ys)) := by
    rw [hlabels, hs', inspectRecords_append_ok]
    exact ⟨xs, _, hx, inspectRecords_cons_ok.2 ⟨zs, ys, hz, hy, rfl⟩, rfl⟩
  exact ⟨_, analyze_ok_iff.2 ⟨_, hrest, rfl⟩, hlabels, by rw [hdup]⟩

end LittleMan
