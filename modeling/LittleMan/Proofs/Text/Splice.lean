import LittleMan.Edit

/-! How the lines of a text change when texts are joined and when a stretch of one line is replaced.
A carriage return must not meet a line feed at the joint, for the two would become one break. -/

namespace LittleMan

/-- Two texts can be joined without making one break of two. -/
def Joinable (s t : List CodePoint) : Prop := s.getLast? = some (.scalar '\r') → t.head? ≠ some (.scalar '\n')

theorem linesOf_crlf (t : List CodePoint) :
    linesOf (.scalar '\r' :: .scalar '\n' :: t) = [] :: linesOf t := rfl

theorem linesOf_break {c : CodePoint} {t : List CodePoint} (hc : c = '\r' ∨ c = '\n')
    (hj : c = '\r' → t.head? ≠ some (.scalar '\n')) : linesOf (c :: t) = [] :: linesOf t := by
  rcases hc with rfl | rfl
  · cases t with
    | nil => rfl
    | cons d t =>
      have hd : d ≠ '\n' := by simpa using hj rfl
      rw [linesOf]
      · simp
      · intro rest _ he
        exact hd (List.cons.inj he).1
  · exact linesOf_newline t

theorem linesOf_cons_of_eq {c : CodePoint} {t line : List CodePoint} {lines : List (List CodePoint)}
    (hr : c ≠ '\r') (hn : c ≠ '\n') (h : linesOf t = line :: lines) :
    linesOf (c :: t) = (c :: line) :: lines := by
  obtain ⟨line', lines', he, hc⟩ := linesOf_cons hr hn t
  obtain ⟨rfl, rfl⟩ := List.cons.inj (h.symm.trans he)
  exact hc

theorem eq_nil_of_linesOf {t : List CodePoint} (h : linesOf t = [[]]) : t = [] := by
  fun_cases linesOf t with
  | case1 => rfl
  | case2 rest => exact absurd (List.cons.inj h).2 (linesOf_ne_nil rest)
  | case3 c rest hne hc =>
    rw [linesOf, if_pos hc] at h
    · exact absurd (List.cons.inj h).2 (linesOf_ne_nil rest)
    · exact hne
  | case4 c rest hne hc he => exact absurd he (linesOf_ne_nil rest)
  | case5 c rest hne hc first others he =>
    simp only [not_or] at hc
    rw [linesOf_cons_of_eq hc.1 hc.2 he] at h
    simp at h

/-- The last line of the first text and the first line of the second become one line. -/
theorem linesOf_append {s t last head : List CodePoint} {init tail : List (List CodePoint)}
    (hj : Joinable s t) (hs : linesOf s = init ++ [last]) (ht : linesOf t = head :: tail) :
    linesOf (s ++ t) = init ++ (last ++ head) :: tail := by
  fun_induction linesOf s generalizing init last with
  | case1 =>
    obtain ⟨rfl, rfl⟩ : init = [] ∧ last = [] := by
      cases init with
      | nil => simpa using hs.symm
      | cons => simp at hs
    simpa using ht
  | case2 rest ih =>
    cases init with
    | nil => exact absurd (List.cons.inj hs).2 (linesOf_ne_nil rest)
    | cons first init =>
      obtain ⟨rfl, hrest⟩ := List.cons.inj hs
      have hh := ih (fun h => hj (by simp [List.getLast?_cons, h])) hrest
      simp only [List.cons_append, linesOf_crlf, hh]
  | case3 c rest hne hc ih =>
    cases init with
    | nil => exact absurd (List.cons.inj hs).2 (linesOf_ne_nil rest)
    | cons first init =>
      obtain ⟨rfl, hrest⟩ := List.cons.inj hs
      have hh := ih (fun h => hj (by simp [List.getLast?_cons, h])) hrest
      have hb : c = '\r' → (rest ++ t).head? ≠ some (.scalar '\n') := by
        rintro rfl
        cases rest with
        | nil => exact hj rfl
        | cons d rest =>
          intro he
          exact hne rest rfl (by simpa using he)
      rw [List.cons_append, linesOf_break hc hb, hh, List.cons_append]
  | case4 c rest hne hc he => exact absurd he (linesOf_ne_nil rest)
  | case5 c rest hne hc first others he ih =>
    simp only [not_or] at hc
    have hj' : Joinable rest t := fun h => hj (by simp [List.getLast?_cons, h])
    cases init with
    | nil =>
      obtain ⟨rfl, rfl⟩ := List.cons.inj hs
      have hrest : linesOf rest = [] ++ [first] := he
      have hh := ih hj' hrest
      exact linesOf_cons_of_eq hc.1 hc.2 hh
    | cons line init =>
      obtain ⟨rfl, rfl⟩ := List.cons.inj hs
      have hrest : linesOf rest = (first :: init) ++ [last] := he
      have hh := ih hj' hrest
      exact linesOf_cons_of_eq hc.1 hc.2 hh

/-- Line `k` of a text, with what stands before and after it. -/
structure LineAt (t : List CodePoint) (k : Nat) (pre line post : List CodePoint) : Prop where
  text_eq : t = pre ++ (line ++ post)
  start : lineStart? k t = some pre.length
  line? : (linesOf t)[k]? = some line
  before : linesOf pre = (linesOf t).take k ++ [[]]
  after : linesOf post = [] :: (linesOf t).drop (k + 1)
  joinable : Joinable pre (line ++ post)

namespace LineAt

variable {t pre line post : List CodePoint} {k : Nat}

theorem after_pair (h : LineAt t k pre line post) :
    LineAt (.scalar '\r' :: .scalar '\n' :: t) (k + 1) (.scalar '\r' :: .scalar '\n' :: pre) line post where
  text_eq := by rw [h.text_eq]; rfl
  start := by simp [lineStart?, h.start]
  line? := by simpa only [linesOf_crlf, List.getElem?_cons_succ] using h.line?
  before := by simp [linesOf_crlf, h.before]
  after := by simpa only [linesOf_crlf, List.drop_succ_cons] using h.after
  joinable := by
    intro hl
    cases pre with
    | nil => simp at hl
    | cons c pre => exact h.joinable (by simpa only [List.getLast?_cons_cons] using hl)

theorem after_break {c : CodePoint} (hc : c = '\r' ∨ c = '\n') (hj : c = '\r' → t.head? ≠ some (.scalar '\n'))
    (h : LineAt t k pre line post) : LineAt (c :: t) (k + 1) (c :: pre) line post where
  text_eq := by rw [h.text_eq]; rfl
  start := by
    rw [lineStart?]
    · simp [hc, h.start]
    · rintro rest rfl rfl
      simp at hj
  line? := by simpa only [linesOf_break hc hj, List.getElem?_cons_succ] using h.line?
  before := by
    have hp : c = '\r' → pre.head? ≠ some (.scalar '\n') := by
      intro he hh
      apply hj he
      rw [h.text_eq, List.head?_append, hh]
      rfl
    simp only [linesOf_break hc hj, linesOf_break hc hp, h.before, List.take_succ_cons,
      List.cons_append]
  after := by simpa only [linesOf_break hc hj, List.drop_succ_cons] using h.after
  joinable := by
    intro hl
    cases pre with
    | nil =>
      have hr : c = '\r' := by simpa using hl
      have ht : t = line ++ post := h.text_eq
      exact ht ▸ hj hr
    | cons d pre => exact h.joinable (by simpa only [List.getLast?_cons_cons] using hl)

theorem first_line {c : CodePoint} {line' : List CodePoint} {lines : List (List CodePoint)} (hr : c ≠ '\r')
    (hn : c ≠ '\n') (he : linesOf t = line' :: lines) (h : LineAt t 0 pre line post) :
    LineAt (c :: t) 0 [] (c :: line) post where
  text_eq := by
    have hp : pre = [] := eq_nil_of_linesOf h.before
    have ht := h.text_eq
    subst hp
    rw [ht]
    rfl
  start := by simp [lineStart?]
  line? := by
    have hl := h.line?
    simp only [he, List.getElem?_cons_zero, Option.some.injEq] at hl
    simp [linesOf_cons_of_eq hr hn he, hl]
  before := rfl
  after := by simpa only [linesOf_cons_of_eq hr hn he, he, List.drop_succ_cons] using h.after
  joinable := by
    intro hl
    simp at hl

theorem later_line {c : CodePoint} {line' : List CodePoint} {lines : List (List CodePoint)} (hr : c ≠ '\r')
    (hn : c ≠ '\n') (he : linesOf t = line' :: lines) (h : LineAt t (k + 1) pre line post) :
    LineAt (c :: t) (k + 1) (c :: pre) line post where
  text_eq := by rw [h.text_eq]; rfl
  start := by
    rw [lineStart?]
    · simp [hr, hn, h.start]
    · rintro rest rfl
      exact absurd rfl hr
  line? := by simpa only [linesOf_cons_of_eq hr hn he, he, List.getElem?_cons_succ] using h.line?
  before := by
    have hb := h.before
    rw [he, List.take_succ_cons, List.cons_append] at hb
    simp [linesOf_cons_of_eq hr hn he, linesOf_cons_of_eq hr hn hb]
  after := by simpa only [linesOf_cons_of_eq hr hn he, he, List.drop_succ_cons] using h.after
  joinable := by
    intro hl
    cases pre with
    | nil => exact absurd (by simpa using hl) hr
    | cons d pre => exact h.joinable (by simpa only [List.getLast?_cons_cons] using hl)

end LineAt

theorem exists_lineAt {t : List CodePoint} {k : Nat} (hk : k < (linesOf t).length) :
    ∃ pre line post, LineAt t k pre line post := by
  fun_induction linesOf t generalizing k with
  | case1 =>
    have hz : k = 0 := by simpa using hk
    subst hz
    exact ⟨[], [], [], rfl, rfl, rfl, rfl, rfl, by simp [Joinable]⟩
  | case2 rest ih =>
    cases k with
    | zero =>
      exact ⟨[], [], .scalar '\r' :: .scalar '\n' :: rest, rfl, rfl, rfl, rfl, rfl, by simp [Joinable]⟩
    | succ k =>
      obtain ⟨pre, line, post, hl⟩ := ih (by simpa using hk)
      exact ⟨_, line, post, hl.after_pair⟩
  | case3 c rest hne hc ih =>
    have hj : c = '\r' → rest.head? ≠ some (.scalar '\n') := by
      intro hr hh
      obtain ⟨tail, rfl⟩ := List.head?_eq_some_iff.1 hh
      exact hne tail hr rfl
    cases k with
    | zero =>
      have he := linesOf_break hc hj
      exact ⟨[], [], c :: rest, rfl, rfl, by simp [he], by simp [linesOf], by simp [he],
        by simp [Joinable]⟩
    | succ k =>
      obtain ⟨pre, line, post, hl⟩ := ih (by simpa using hk)
      exact ⟨_, line, post, hl.after_break hc hj⟩
  | case4 c rest hne hc he => exact absurd he (linesOf_ne_nil rest)
  | case5 c rest hne hc first others he ih =>
    simp only [not_or] at hc
    obtain ⟨pre, line, post, hl⟩ := ih (k := k) (by simpa [he] using hk)
    cases k with
    | zero => exact ⟨_, _, post, hl.first_line hc.1 hc.2 he⟩
    | succ k => exact ⟨_, line, post, hl.later_line hc.1 hc.2 he⟩

namespace LineAt

variable {t pre line post : List CodePoint} {k : Nat}

theorem no_break (h : LineAt t k pre line post) : .scalar '\r' ∉ line ∧ .scalar '\n' ∉ line :=
  not_break_of_mem_linesOf (List.mem_of_getElem? h.line?)

theorem mem_text (h : LineAt t k pre line post) {c : CodePoint} (hc : c ∈ line) : c ∈ t := by
  rw [h.text_eq]
  exact List.mem_append_right _ (List.mem_append_left _ hc)

theorem post_eq_nil (h : LineAt t k pre line post) (hk : k + 1 = (linesOf t).length) :
    post = [] := by
  apply eq_nil_of_linesOf
  rw [h.after, hk, List.drop_length]

theorem linesOf_splice (h : LineAt t k pre line post) (new : List CodePoint) (hne : new ≠ [])
    (hfirst : new.head? ≠ some (.scalar '\n')) (hlast : new.getLast? ≠ some (.scalar '\r')) :
    linesOf (pre ++ (new ++ post)) =
      (linesOf t).take k ++ (linesOf new ++ (linesOf t).drop (k + 1)) := by
  have hnew := List.dropLast_concat_getLast (linesOf_ne_nil new)
  have htail : linesOf (new ++ post) = linesOf new ++ (linesOf t).drop (k + 1) := by
    have hj : Joinable new post := fun he => absurd he hlast
    rw [linesOf_append hj hnew.symm h.after, List.append_nil, List.append_cons, hnew]
  cases hl : linesOf new with
  | nil => exact absurd hl (linesOf_ne_nil new)
  | cons head tail =>
    rw [hl, List.cons_append] at htail
    have hj : Joinable pre (new ++ post) := by
      intro _ he
      rw [List.head?_append, Option.or_of_isSome (List.isSome_head?.2 hne)] at he
      exact hfirst he
    rw [linesOf_append hj h.before htail]
    rfl

theorem linesOf_replace (h : LineAt t k pre line post) {new : List CodePoint} (hne : new ≠ [])
    (hr : .scalar '\r' ∉ new) (hn : .scalar '\n' ∉ new) :
    linesOf (pre ++ (new ++ post)) = (linesOf t).take k ++ new :: (linesOf t).drop (k + 1) := by
  rw [h.linesOf_splice new hne (fun he => hn (List.mem_of_mem_head? he))
    (fun he => hr (List.mem_of_getLast? he)), linesOf_of_not_mem hr hn]
  rfl

end LineAt

theorem Source.offset?_of_lineAt {s : Source} {pre line post : List CodePoint} {k col : Nat}
    (h : LineAt s.text k pre line post) (hc : col ≤ line.length) :
    s.offset? ⟨k, col⟩ = some (pre.length + col) := by
  have hl : s.lines[k]? = some line := by rw [s.lines_eq, h.line?]
  have hneg : ¬ ((k : Int) < 0) := by omega
  simp [offset?, hneg, h.start, hl, Nat.min_eq_left hc]

theorem Edit.textAfter_of_lineAt {s : Source} {e : Edit} {pre line post : List CodePoint}
    {k a b : Nat} (h : LineAt s.text k pre line post) (hs : e.start = ⟨k, a⟩)
    (he : e.stop = ⟨k, b⟩) (hab : a ≤ b) (hb : b ≤ line.length) :
    e.textAfter s = some (pre ++ ((line.take a ++ e.text ++ line.drop b) ++ post)) := by
  have hstart := s.offset?_of_lineAt h (Nat.le_trans hab hb)
  have hstop := s.offset?_of_lineAt h hb
  have htake : s.text.take (pre.length + a) = pre ++ line.take a := by
    rw [h.text_eq, List.take_length_add_append, List.take_append_of_le_length (Nat.le_trans hab hb)]
  have hdrop : s.text.drop (pre.length + b) = line.drop b ++ post := by
    rw [h.text_eq, List.drop_length_add_append, List.drop_append_of_le_length hb]
  simp only [textAfter, hs, he, hstart, hstop, Option.bind_eq_bind, Option.bind_some,
    Option.pure_def, htake, hdrop, List.append_assoc]

end LittleMan
