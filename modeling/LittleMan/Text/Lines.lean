import LittleMan.Text.Blank

/-! A text as lines. A line ends at a carriage return and line feed together, or at either alone, so
a text has one line more than it has breaks. -/

namespace LittleMan

def linesOf : List CodePoint → List (List CodePoint)
  | [] => [[]]
  | .scalar '\r' :: .scalar '\n' :: rest => [] :: linesOf rest
  | c :: rest =>
    if c = '\r' ∨ c = '\n' then [] :: linesOf rest
    else match linesOf rest with
      | [] => [[c]]
      | line :: lines => (c :: line) :: lines

def joinLines : List (List CodePoint) → List CodePoint
  | [] => []
  | [line] => line
  | line :: lines => line ++ .scalar '\n' :: joinLines lines

def normalizeBreaks (t : List CodePoint) : List CodePoint := joinLines (linesOf t)

/-- The number of characters before the given line, if the text has that many lines. -/
def lineStart? : Nat → List CodePoint → Option Nat
  | 0, _ => some 0
  | _ + 1, [] => none
  | n + 1, .scalar '\r' :: .scalar '\n' :: rest => (lineStart? n rest).map (· + 2)
  | n + 1, c :: rest =>
    if c = '\r' ∨ c = '\n' then (lineStart? n rest).map (· + 1)
    else (lineStart? (n + 1) rest).map (· + 1)

theorem linesOf_ne_nil (t : List CodePoint) : linesOf t ≠ [] := by
  fun_cases linesOf t <;> simp_all

theorem linesOf_cons {c : CodePoint} (hr : c ≠ '\r') (hn : c ≠ '\n') (t : List CodePoint) :
    ∃ line lines, linesOf t = line :: lines ∧ linesOf (c :: t) = (c :: line) :: lines := by
  cases h : linesOf t with
  | nil => exact absurd h (linesOf_ne_nil t)
  | cons line lines => exact ⟨line, lines, rfl, by simp [linesOf, hr, hn, h]⟩

theorem linesOf_newline (t : List CodePoint) : linesOf (.scalar '\n' :: t) = [] :: linesOf t := by
  simp [linesOf]

theorem not_break_of_mem_linesOf {t line : List CodePoint} (h : line ∈ linesOf t) :
    .scalar '\r' ∉ line ∧ .scalar '\n' ∉ line := by
  fun_induction linesOf t generalizing line with
  | case1 => simp_all
  | case2 rest ih =>
    rcases List.mem_cons.1 h with rfl | h
    · simp
    · exact ih h
  | case3 c rest hne hc ih =>
    rcases List.mem_cons.1 h with rfl | h
    · simp
    · exact ih h
  | case4 c rest hne hc he ih =>
    simp only [List.mem_singleton] at h
    subst h
    simp only [not_or] at hc
    exact ⟨by simpa using Ne.symm hc.1, by simpa using Ne.symm hc.2⟩
  | case5 c rest hne hc first others he ih =>
    simp only [not_or] at hc
    rcases List.mem_cons.1 h with rfl | h
    · have hf := ih (he ▸ List.mem_cons_self)
      exact ⟨by simp [Ne.symm hc.1, hf.1], by simp [Ne.symm hc.2, hf.2]⟩
    · exact ih (he ▸ List.mem_cons_of_mem _ h)

theorem linesOf_of_not_mem {t : List CodePoint} (hr : .scalar '\r' ∉ t) (hn : .scalar '\n' ∉ t) :
    linesOf t = [t] := by
  induction t with
  | nil => rfl
  | cons c rest ih =>
    simp only [List.mem_cons, not_or] at hr hn
    obtain ⟨line, lines, he, hc⟩ := linesOf_cons (Ne.symm hr.1) (Ne.symm hn.1) rest
    rw [ih hr.2 hn.2] at he
    obtain ⟨rfl, rfl⟩ := List.cons.inj he
    exact hc

theorem linesOf_line_newline {line : List CodePoint} (hr : .scalar '\r' ∉ line) (hn : .scalar '\n' ∉ line)
    (t : List CodePoint) : linesOf (line ++ .scalar '\n' :: t) = line :: linesOf t := by
  induction line with
  | nil => exact linesOf_newline t
  | cons c rest ih =>
    simp only [List.mem_cons, not_or] at hr hn
    obtain ⟨line, lines, he, hc⟩ :=
      linesOf_cons (Ne.symm hr.1) (Ne.symm hn.1) (rest ++ .scalar '\n' :: t)
    rw [ih hr.2 hn.2] at he
    obtain ⟨rfl, rfl⟩ := List.cons.inj he
    exact hc

/-- Joining lines and splitting the text again gives the lines back. -/
theorem linesOf_joinLines {lines : List (List CodePoint)} (hne : lines ≠ [])
    (h : ∀ line ∈ lines, .scalar '\r' ∉ line ∧ .scalar '\n' ∉ line) : linesOf (joinLines lines) = lines := by
  induction lines with
  | nil => exact absurd rfl hne
  | cons line rest ih =>
    have hline := h line List.mem_cons_self
    cases rest with
    | nil => exact linesOf_of_not_mem hline.1 hline.2
    | cons next others =>
      have hrest := ih (by simp) fun l hl => h l (List.mem_cons_of_mem _ hl)
      rw [joinLines, linesOf_line_newline hline.1 hline.2, hrest]
      simp

theorem linesOf_normalizeBreaks (t : List CodePoint) : linesOf (normalizeBreaks t) = linesOf t :=
  linesOf_joinLines (linesOf_ne_nil t) fun _ h => not_break_of_mem_linesOf h

end LittleMan
