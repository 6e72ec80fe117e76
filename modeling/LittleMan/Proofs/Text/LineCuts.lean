import LittleMan.Proofs.Text.Splice
import Mathlib.Data.List.Chain

/-! Texts taken apart into lines and the breaks between them. If a carriage return and a line feed that
stand together count as one break, there is only one way to do so, and it gives the lines of the text
and the places on them. -/

namespace LittleMan

/-- What stands between two lines. -/
inductive LineBreak where
  | pair
  | carriageReturn
  | lineFeed
  deriving DecidableEq, Repr

def LineBreak.text : LineBreak → List CodePoint
  | .pair => [.scalar '\r', .scalar '\n']
  | .carriageReturn => [.scalar '\r']
  | .lineFeed => [.scalar '\n']

theorem LineBreak.length_text_pos (b : LineBreak) : 0 < b.text.length := by cases b <;> decide

/-- The text of lines with the break after each. -/
def endedText (ended : List (List CodePoint × LineBreak)) : List CodePoint :=
  ended.flatMap fun row => row.1 ++ row.2.text

/-- A text taken apart: lines with the break after each, and a last line without one. -/
structure Cut where
  ended : List (List CodePoint × LineBreak)
  last : List CodePoint
  unbroken : ∀ line ∈ ended.map Prod.fst ++ [last], .scalar '\r' ∉ line ∧ .scalar '\n' ∉ line
  /-- No empty line stands between a carriage return and a line feed. -/
  whole : ended.IsChain fun row next => ¬ (row.2 = .carriageReturn ∧ next = ([], .lineFeed))

namespace Cut

def text (c : Cut) : List CodePoint := endedText c.ended ++ c.last

def lines (c : Cut) : List (List CodePoint) := c.ended.map Prod.fst ++ [c.last]

/-- The number of characters before a column of a line, if the cut has that line and the line that
column. -/
def offset? (c : Cut) (k col : Nat) : Option Nat := do
  let line ← c.lines[k]?
  if col ≤ line.length then some ((endedText (c.ended.take k)).length + col) else none

variable {c : Cut} {b : LineBreak} {line t u : List CodePoint}

def single (line : List CodePoint) (h : .scalar '\r' ∉ line ∧ .scalar '\n' ∉ line) : Cut where
  ended := []
  last := line
  unbroken := by simpa using h
  whole := .nil

theorem head?_text_of_lineFeed {rows : List (List CodePoint × LineBreak)}
    (h : c.ended = ([], .lineFeed) :: rows) : c.text.head? = some (.scalar '\n') := by
  rw [text, h]
  rfl

/-- A line and its break before a cut. The break must not become one with the break behind it. -/
def cons (line : List CodePoint) (b : LineBreak) (c : Cut) (h : .scalar '\r' ∉ line ∧ .scalar '\n' ∉ line)
    (hj : b = .carriageReturn → c.text.head? ≠ some (.scalar '\n')) : Cut where
  ended := (line, b) :: c.ended
  last := c.last
  unbroken := by
    intro l hl
    rcases List.mem_cons.1 hl with rfl | hl
    · exact h
    · exact c.unbroken l hl
  whole := by
    cases he : c.ended with
    | nil => exact .singleton _
    | cons next rows =>
      refine List.isChain_cons_cons.2 ⟨?_, he ▸ c.whole⟩
      rintro ⟨hb, rfl⟩
      exact hj hb (head?_text_of_lineFeed he)

theorem text_cons (line : List CodePoint) (b : LineBreak) (c : Cut)
    (h : .scalar '\r' ∉ line ∧ .scalar '\n' ∉ line)
    (hj : b = .carriageReturn → c.text.head? ≠ some (.scalar '\n')) :
    (cons line b c h hj).text = line ++ (b.text ++ c.text) := by
  simp only [text, cons, endedText, List.flatMap_cons, List.append_assoc]

theorem head?_text (c : Cut) (h : c.text.head? = some (.scalar '\n')) :
    ∃ rows, c.ended = ([], .lineFeed) :: rows := by
  obtain ⟨ended, last, hu, hw⟩ := c
  cases ended with
  | nil =>
    have hlast : last.head? = some (.scalar '\n') := h
    exact absurd (List.mem_of_mem_head? hlast) (hu last (by simp)).2
  | cons row rows =>
    obtain ⟨line, b⟩ := row
    have hhead : (line ++ (b.text ++ (endedText rows ++ last))).head? = some (.scalar '\n') := by
      simpa only [text, endedText, List.flatMap_cons, List.append_assoc] using h
    cases line with
    | nil =>
      cases b with
      | lineFeed => exact ⟨rows, rfl⟩
      | pair | carriageReturn => simp [LineBreak.text] at hhead
    | cons d line =>
      obtain rfl : d = '\n' := by simpa using hhead
      exact absurd List.mem_cons_self (hu _ List.mem_cons_self).2

/-- A cut is a line, or a line and its break before a cut. -/
@[elab_as_elim]
theorem induct {motive : Cut → Prop} (single : ∀ line h, motive (single line h))
    (cons : ∀ line b c h hj, motive c → motive (cons line b c h hj)) (c : Cut) : motive c := by
  obtain ⟨ended, last, hu, hw⟩ := c
  induction ended with
  | nil => exact single last (hu last (by simp))
  | cons row rows ih =>
    obtain ⟨line, b⟩ := row
    let c : Cut := ⟨rows, last, fun l hl => hu l (List.mem_cons_of_mem _ hl), hw.tail⟩
    refine cons line b c (hu line List.mem_cons_self) ?_ (ih _ _)
    intro hb hh
    obtain ⟨rest, hrows⟩ := c.head?_text hh
    obtain rfl : rows = ([], .lineFeed) :: rest := hrows
    exact (List.isChain_cons_cons.1 hw).1 ⟨hb, rfl⟩

theorem linesOf_break_text (hj : b = .carriageReturn → t.head? ≠ some (.scalar '\n')) :
    linesOf (b.text ++ t) = [] :: linesOf t := by
  cases b with
  | pair => exact linesOf_crlf t
  | carriageReturn => exact linesOf_break (Or.inl rfl) fun _ => hj rfl
  | lineFeed => exact linesOf_newline t

theorem linesOf_text (c : Cut) : linesOf c.text = c.lines := by
  induction c using induct with
  | single line h => exact linesOf_of_not_mem h.1 h.2
  | cons line b c h hj ih =>
    have hline : linesOf line = [] ++ [line] := linesOf_of_not_mem h.1 h.2
    have hjoin : Joinable line (b.text ++ c.text) := fun hl => absurd (List.mem_of_getLast? hl) h.1
    rw [text_cons, linesOf_append hjoin hline (linesOf_break_text hj), ih]
    simp [lines, cons]

/-- Breaks that stand at the head of one text are the same if no line feed is left behind a carriage
return. -/
theorem eq_of_break_text_eq {b' : LineBreak} (hb : b = .carriageReturn → t.head? ≠ some (.scalar '\n'))
    (hb' : b' = .carriageReturn → u.head? ≠ some (.scalar '\n')) (h : b.text ++ t = b'.text ++ u) :
    b = b' ∧ t = u := by
  cases b <;> cases b' <;> simp only [LineBreak.text, List.cons_append, List.nil_append] at h
  case pair.carriageReturn => exact absurd (by rw [← (List.cons.inj h).2]; rfl) (hb' rfl)
  case carriageReturn.pair => exact absurd (by rw [(List.cons.inj h).2]; rfl) (hb rfl)
  all_goals simp_all

theorem eq_of_text_eq {c c' : Cut} (h : c.text = c'.text) : c = c' := by
  induction c using induct generalizing c' with
  | single line hline =>
    have hlines := linesOf_text (single line hline)
    rw [h, linesOf_text c'] at hlines
    cases c' using induct with
    | single line' hline' =>
      obtain rfl : line' = line := (List.cons.inj hlines).1
      rfl
    | cons line' b' c' hline' hj' => simp [lines, cons, single] at hlines
  | cons line b c hline hj ih =>
    have hlines := linesOf_text (cons line b c hline hj)
    rw [h, linesOf_text c'] at hlines
    cases c' using induct with
    | single line' hline' => simp [lines, cons, single] at hlines
    | cons line' b' c' hline' hj' =>
      obtain rfl : line' = line := (List.cons.inj hlines).1
      rw [text_cons, text_cons] at h
      obtain ⟨rfl, hrest⟩ := eq_of_break_text_eq hj hj' (List.append_cancel_left h)
      obtain rfl := ih hrest
      rfl

theorem exists_text_cons {d : CodePoint} (hr : d ≠ '\r') (hn : d ≠ '\n') (c : Cut) :
    ∃ c' : Cut, c'.text = d :: c.text := by
  have hmem : ∀ {line : List CodePoint}, .scalar '\r' ∉ line ∧ .scalar '\n' ∉ line →
      .scalar '\r' ∉ d :: line ∧ .scalar '\n' ∉ d :: line := by
    intro line h
    simpa [Ne.symm hr, Ne.symm hn] using h
  cases c using induct with
  | single line h => exact ⟨single (d :: line) (hmem h), rfl⟩
  | cons line b c h hj =>
    refine ⟨cons (d :: line) b c (hmem h) hj, ?_⟩
    rw [text_cons, text_cons]
    rfl

theorem exists_text_eq (t : List CodePoint) : ∃ c : Cut, c.text = t := by
  fun_induction linesOf t with
  | case1 => exact ⟨single [] (by simp), rfl⟩
  | case2 rest ih =>
    obtain ⟨c, rfl⟩ := ih
    exact ⟨cons [] .pair c (by simp) (by simp), text_cons ..⟩
  | case3 d rest hne hd ih =>
    obtain ⟨c, rfl⟩ := ih
    rcases hd with rfl | rfl
    · refine ⟨cons [] .carriageReturn c (by simp) fun _ hh => ?_, text_cons ..⟩
      obtain ⟨tail, htail⟩ := List.head?_eq_some_iff.1 hh
      exact hne tail rfl htail
    · exact ⟨cons [] .lineFeed c (by simp) (by simp), text_cons ..⟩
  | case4 d rest hne hd he => exact absurd he (linesOf_ne_nil rest)
  | case5 d rest hne hd line lines he ih =>
    simp only [not_or] at hd
    obtain ⟨c, rfl⟩ := ih
    exact exists_text_cons hd.1 hd.2 c

theorem lineStart?_append (h : .scalar '\r' ∉ line ∧ .scalar '\n' ∉ line) (n : Nat) (t : List CodePoint) :
    lineStart? (n + 1) (line ++ t) = (lineStart? (n + 1) t).map (· + line.length) := by
  induction line with
  | nil => simp
  | cons d line ih =>
    simp only [List.mem_cons, not_or] at h
    have hrest := ih ⟨h.1.2, h.2.2⟩
    rw [List.cons_append, lineStart?, if_neg (by simp [Ne.symm h.1.1, Ne.symm h.2.1]), hrest,
      Option.map_map]
    · rfl
    · intro rest hd
      exact absurd hd.symm h.1.1

theorem lineStart?_break_text (hj : b = .carriageReturn → t.head? ≠ some (.scalar '\n')) (n : Nat) :
    lineStart? (n + 1) (b.text ++ t) = (lineStart? n t).map (· + b.text.length) := by
  cases b with
  | pair => rfl
  | lineFeed => rfl
  | carriageReturn =>
    show lineStart? (n + 1) (.scalar '\r' :: t) = _
    rw [lineStart?, if_pos (Or.inl rfl)]
    · rfl
    · rintro rest - rfl
      exact hj rfl rfl

theorem lineStart?_text (c : Cut) {k : Nat} (hk : k ≤ c.ended.length) :
    lineStart? k c.text = some (endedText (c.ended.take k)).length := by
  induction c using induct generalizing k with
  | single line h =>
    obtain rfl := Nat.le_zero.1 hk
    rw [lineStart?]
    rfl
  | cons line b c h hj ih =>
    cases k with
    | zero =>
      rw [lineStart?]
      rfl
    | succ k =>
      have hstart := ih (Nat.le_of_succ_le_succ hk)
      rw [text_cons, lineStart?_append h, lineStart?_break_text hj, hstart]
      simp only [cons, List.take_succ_cons, endedText, List.flatMap_cons, List.length_append,
        Option.map_some, Option.some.injEq]
      omega

theorem offset?_eq_some_iff {k col n : Nat} :
    c.offset? k col = some n ↔ ∃ line, c.lines[k]? = some line ∧ col ≤ line.length ∧
      n = (endedText (c.ended.take k)).length + col := by
  unfold offset?
  cases c.lines[k]? with
  | none => simp
  | some line => simp [eq_comm]

theorem length_lines (c : Cut) : c.lines.length = c.ended.length + 1 := by simp [lines]

theorem length_text (c : Cut) : c.text.length = (endedText c.ended).length + c.last.length :=
  List.length_append

/-- The end of a line with a break is before the end of the text, since the break is between them. -/
theorem length_line_lt {k : Nat} (h : c.ended[k]? = some (line, b)) :
    (endedText (c.ended.take k)).length + line.length < c.text.length := by
  obtain ⟨hk, hrow⟩ := List.getElem?_eq_some_iff.1 h
  have hsplit : c.ended = c.ended.take k ++ (line, b) :: c.ended.drop (k + 1) := by
    rw [← hrow, ← List.drop_eq_getElem_cons hk, List.take_append_drop]
  have hended : (endedText c.ended).length = (endedText (c.ended.take k)).length +
      (line.length + b.text.length + (endedText (c.ended.drop (k + 1))).length) := by
    calc (endedText c.ended).length
        = (endedText (c.ended.take k ++ (line, b) :: c.ended.drop (k + 1))).length := by rw [← hsplit]
      _ = _ := by simp only [endedText, List.flatMap_append, List.flatMap_cons, List.length_append]
  have hbreak := b.length_text_pos
  rw [length_text, hended]
  omega

theorem offset?_eq_length_iff {k col : Nat} :
    c.offset? k col = some c.text.length ↔ k = c.ended.length ∧ col = c.last.length := by
  rw [offset?_eq_some_iff]
  constructor
  · rintro ⟨line, hline, hcol, hn⟩
    have hk := (List.getElem?_eq_some_iff.1 hline).1
    rw [length_lines] at hk
    rcases Nat.lt_succ_iff_lt_or_eq.1 hk with hlt | rfl
    · rw [lines, List.getElem?_append_left (by simpa using hlt), List.getElem?_map] at hline
      obtain ⟨⟨line, b⟩, hrow, rfl⟩ := Option.map_eq_some_iff.1 hline
      have hbefore := length_line_lt hrow
      simp only at hcol
      omega
    · rw [List.take_length, length_text] at hn
      exact ⟨rfl, (Nat.add_left_cancel hn).symm⟩
  · rintro ⟨rfl, rfl⟩
    exact ⟨c.last, by simp [lines], Nat.le_refl _, by rw [List.take_length, length_text]⟩

end Cut

section

variable {s : Source} {c : Cut}

theorem Source.lines_eq_of_cut (h : c.text = s.text) : s.lines = c.lines := by
  rw [s.lines_eq, ← h, c.linesOf_text]

theorem Source.offset?_of_cut (h : c.text = s.text) {k col n : Nat} (hn : c.offset? k col = some n) :
    s.offset? ⟨k, col⟩ = some n := by
  obtain ⟨line, hline, hcol, rfl⟩ := Cut.offset?_eq_some_iff.1 hn
  have hk := (List.getElem?_eq_some_iff.1 hline).1
  rw [c.length_lines] at hk
  have hstart := c.lineStart?_text (Nat.le_of_lt_succ hk)
  rw [h] at hstart
  have hneg : ¬ ((k : Int) < 0) := by omega
  simp [offset?, hneg, hstart, lines_eq_of_cut h, hline, Nat.min_eq_left hcol]

theorem Source.atEnd_of_cut (h : c.text = s.text) : s.atEnd = ⟨c.ended.length, c.last.length, 0⟩ := by
  simp [atEnd, lines_eq_of_cut h, Cut.lines]

/-- A text is taken apart in one way, which its lines and the places on them follow. -/
structure Source.CutInOneWay (s : Source) : Prop where
  lines_iff : ∀ lines, (∃ c : Cut, c.text = s.text ∧ c.lines = lines) ↔ lines = s.lines
  unique : ∀ c c' : Cut, c.text = s.text → c'.text = s.text → c = c'
  offset : ∀ c : Cut, c.text = s.text → ∀ k col n, c.offset? k col = some n →
    s.offset? ⟨k, col⟩ = some n
  /-- The end is the one place that has the whole text before it. -/
  atEnd : ∀ c : Cut, c.text = s.text → ∃ k col : Nat, s.atEnd = ⟨k, col, 0⟩ ∧
    ∀ i j, c.offset? i j = some s.text.length ↔ i = k ∧ j = col

theorem cutInOneWay (s : Source) : s.CutInOneWay := by
  refine ⟨fun lines => ?_, ?_, ?_, ?_⟩
  · constructor
    · rintro ⟨c, h, rfl⟩
      exact (Source.lines_eq_of_cut h).symm
    · rintro rfl
      obtain ⟨c, h⟩ := Cut.exists_text_eq s.text
      exact ⟨c, h, (Source.lines_eq_of_cut h).symm⟩
  · intro c c' h h'
    exact Cut.eq_of_text_eq (h.trans h'.symm)
  · intro c h k col n hn
    exact Source.offset?_of_cut h hn
  · intro c h
    refine ⟨c.ended.length, c.last.length, Source.atEnd_of_cut h, fun i j => ?_⟩
    rw [← h]
    exact Cut.offset?_eq_length_iff

example : linesOf (Text.toList "A\r\r\nB\n") = [[.scalar 'A'], [], [.scalar 'B'], []] := by decide

end

end LittleMan
