import LittleMan.Proofs.Numbering
import LittleMan.Proofs.Text.Splice
import LittleMan.QuickFix
import Mathlib.Data.List.Basic

/-! Putting lines into a text. The records above the new lines stay, and those below move down. -/

namespace LittleMan

/-- The number of line `n` after `c` lines are put in above line `k`. -/
def pushDown (k c n : Nat) : Nat := if n < k then n else n + c

/-- The text has the lines of another with new ones above line `k`. -/
structure PutIn (s : Source) (k : Nat) (new : List (List CodePoint)) (text : List CodePoint) : Prop where
  lines_eq : linesOf text = s.lines.take k ++ (new ++ s.lines.drop k)
  le_length : k ≤ s.lines.length

theorem linesOf_append_newline {t u : List CodePoint} (hr : t.getLast? ≠ some (.scalar '\r')) :
    linesOf (t ++ .scalar '\n' :: u) = linesOf t ++ linesOf u := by
  have hj : Joinable t (.scalar '\n' :: u) := fun he => absurd he hr
  have ht := List.dropLast_concat_getLast (linesOf_ne_nil t)
  rw [linesOf_append hj ht.symm (linesOf_newline u), List.append_nil, List.append_cons, ht]

theorem putIn_above {s : Source} {k : Nat} {line t : List CodePoint} (hk : s.lines[k]? = some line)
    (hline : line ≠ []) (hne : t ≠ []) (hn : t.head? ≠ some (.scalar '\n'))
    (hr : t.getLast? ≠ some (.scalar '\r')) :
    ∃ text, (Edit.insert ⟨k, 0⟩ (t ++ [.scalar '\n'])).textAfter s = some text ∧
      PutIn s k (linesOf t) text := by
  have hlt := (List.getElem?_eq_some_iff.1 hk).1
  obtain ⟨pre, line', post, hl⟩ := exists_lineAt (s.lines_eq ▸ hlt)
  obtain rfl : line = line' := by
    have hh := hl.line?
    rw [← s.lines_eq, hk] at hh
    exact Option.some.inj hh
  refine ⟨_, Edit.textAfter_of_lineAt hl rfl rfl (Nat.le_refl 0) (Nat.zero_le _), ?_,
    Nat.le_of_lt hlt⟩
  have hnew : (List.take 0 line ++ (t ++ [.scalar '\n']) ++ List.drop 0 line) =
      t ++ .scalar '\n' :: line := by
    simp
  have hlast : (t ++ .scalar '\n' :: line).getLast? ≠ some (.scalar '\r') := by
    rw [List.getLast?_append_of_ne_nil _ (by simp), List.getLast?_cons_of_ne_nil hline]
    exact fun he => hl.no_break.1 (List.mem_of_getLast? he)
  have hfirst : (t ++ .scalar '\n' :: line).head? ≠ some (.scalar '\n') := by
    rwa [List.head?_append, Option.or_of_isSome (List.isSome_head?.2 hne)]
  rw [Edit.insert, hnew, hl.linesOf_splice _ (by simp) hfirst hlast, linesOf_append_newline hr,
    linesOf_of_not_mem hl.no_break.1 hl.no_break.2, ← s.lines_eq]
  rw [List.drop_eq_getElem?_toList_append (i := k), hk, List.append_assoc]
  rfl

theorem exists_lineAt_last (s : Source) :
    ∃ k pre line, k + 1 = s.lines.length ∧ LineAt s.text k pre line [] ∧ s.lines[k]? = some line ∧
      s.lines.getLast s.lines_ne_nil = line := by
  have hpos := List.length_pos_iff.2 s.lines_ne_nil
  obtain ⟨k, hk⟩ : ∃ k, k + 1 = s.lines.length := ⟨s.lines.length - 1, by omega⟩
  obtain ⟨pre, line, post, hl⟩ := exists_lineAt (t := s.text) (k := k) (by rw [← s.lines_eq]; omega)
  obtain rfl := hl.post_eq_nil (by rw [← s.lines_eq, hk])
  have hget : s.lines[k]? = some line := by rw [s.lines_eq, hl.line?]
  refine ⟨k, pre, line, hk, hl, hget, ?_⟩
  have hlast := List.getLast?_eq_getElem? (l := s.lines)
  rw [← hk, Nat.add_sub_cancel, hget, List.getLast?_eq_some_getLast s.lines_ne_nil] at hlast
  exact Option.some.inj hlast

/-- A text written on lines of its own at the end: after the last line, or on it if it is empty. -/
theorem putIn_atEnd (s : Source) {t : List CodePoint} (hne : t ≠ []) (hn : t.head? ≠ some (.scalar '\n'))
    (hr : t.getLast? ≠ some (.scalar '\r')) :
    ∃ text k, (QuickFix.newLastLine s t).textAfter s = some text ∧ PutIn s k (linesOf t) text ∧
      ∀ line ∈ s.lines.drop k, line = [] := by
  obtain ⟨k, pre, line, hk, hl, hget, hlast⟩ := exists_lineAt_last s
  have hend : s.atEnd.start = ⟨k, line.length⟩ := by
    have hline : (s.lines.length : Int) - 1 = k := by omega
    simp only [Source.atEnd, Span.start, hlast, hline]
  have hdrop : s.lines.drop (k + 1) = [] := by rw [hk, List.drop_length]
  by_cases hline : line = []
  · have he : QuickFix.newLastLine s t = Edit.insert ⟨k, line.length⟩ (t ++ [.scalar '\n']) := by
      rw [QuickFix.newLastLine, hlast, hend, if_pos (by simp [hline])]
    have hempty : s.lines.drop k = [[]] := by
      rw [List.drop_eq_getElem?_toList_append, hget, hdrop, hline]
      rfl
    rw [he]
    refine ⟨_, k, Edit.textAfter_of_lineAt hl rfl rfl (Nat.le_refl _) (Nat.le_refl _),
      ⟨?_, by omega⟩, by simp [hempty]⟩
    have hfirst : (t ++ [CodePoint.scalar '\n']).head? ≠ some (.scalar '\n') := by
      rwa [List.head?_append, Option.or_of_isSome (List.isSome_head?.2 hne)]
    have hsplit := hl.linesOf_splice (t ++ [.scalar '\n']) (by simp) hfirst (by simp)
    have hnil : linesOf [] = [[]] := rfl
    rw [linesOf_append_newline hr, hnil, ← s.lines_eq, hdrop, List.append_nil] at hsplit
    rw [hempty, hline]
    simpa [Edit.insert] using hsplit
  · have he : QuickFix.newLastLine s t = Edit.insert ⟨k, line.length⟩ (.scalar '\n' :: t) := by
      rw [QuickFix.newLastLine, hlast, hend, if_neg (by simp [hline])]
    rw [he]
    refine ⟨_, k + 1, Edit.textAfter_of_lineAt hl rfl rfl (Nat.le_refl _) (Nat.le_refl _),
      ⟨?_, by omega⟩, by simp [hdrop]⟩
    have hfirst : (line ++ .scalar '\n' :: t).head? ≠ some (.scalar '\n') := by
      rw [List.head?_append, Option.or_of_isSome (List.isSome_head?.2 hline)]
      exact fun hh => hl.no_break.2 (List.mem_of_mem_head? hh)
    have hlast' : (line ++ .scalar '\n' :: t).getLast? ≠ some (.scalar '\r') := by
      rwa [List.getLast?_append_of_ne_nil _ (by simp), List.getLast?_cons_of_ne_nil hne]
    have hsplit := hl.linesOf_splice _ (by simp) hfirst hlast'
    rw [linesOf_line_newline hl.no_break.1 hl.no_break.2, ← s.lines_eq, hdrop] at hsplit
    rw [List.take_add_one, hget, hdrop]
    simpa [Edit.insert] using hsplit

theorem PutIn.records {s : Source} {k : Nat} {new : List (List CodePoint)} {text : List CodePoint}
    (h : PutIn s k new text) :
    s.records = readRecords 0 (s.lines.take k) ++ readRecords k (s.lines.drop k) ∧
      (s.withText text).records = readRecords 0 (s.lines.take k) ++
        (readRecords k new ++
          (readRecords k (s.lines.drop k)).map (Record.renumber (· + new.length))) := by
  have hlen : (s.lines.take k).length = k := List.length_take_of_le h.le_length
  constructor
  · have hh := readRecords_append 0 (s.lines.take k) (s.lines.drop k)
    rwa [List.take_append_drop, hlen, Nat.zero_add] at hh
  · have hh := readRecords_append 0 (s.lines.take k) (new ++ s.lines.drop k)
    rw [← h.lines_eq, hlen, Nat.zero_add, readRecords_append, readRecords_add] at hh
    exact hh

theorem renumber_pushDown_of_lt {k c : Nat} {rs : List Record} (h : ∀ r ∈ rs, r.line < k) :
    rs.map (Record.renumber (pushDown k c)) = rs := by
  have hid : rs.map (Record.renumber (pushDown k c)) = rs.map id := by
    refine List.map_congr_left fun r hr => ?_
    simp only [Record.renumber, pushDown, h r hr, if_true, id]
  rw [hid, List.map_id]

theorem renumber_pushDown_of_le {k c : Nat} {rs : List Record} (h : ∀ r ∈ rs, k ≤ r.line) :
    rs.map (Record.renumber (pushDown k c)) = rs.map (Record.renumber (· + c)) := by
  refine List.map_congr_left fun r hr => ?_
  have hn : ¬ r.line < k := Nat.not_lt.2 (h r hr)
  simp only [Record.renumber, pushDown, hn, if_false]

theorem PutIn.exists_records {s : Source} {k : Nat} {new : List (List CodePoint)} {text : List CodePoint}
    (h : PutIn s k new text) :
    ∃ before after, s.records = before ++ after ∧ (∀ r ∈ before, r.line < k) ∧
      (∀ r ∈ after, k ≤ r.line) ∧ after = readRecords k (s.lines.drop k) ∧
      (s.withText text).records = before ++
        (readRecords k new ++ after.map (Record.renumber (· + new.length))) := by
  refine ⟨_, _, h.records.1, fun r hr => ?_, fun r hr => le_line_of_mem_readRecords hr, rfl,
    h.records.2⟩
  have hlt := line_lt_of_mem_readRecords hr
  rwa [Nat.zero_add, List.length_take_of_le h.le_length] at hlt

end LittleMan
