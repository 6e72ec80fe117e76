import LittleMan.Proofs.CaretLine
import LittleMan.Proofs.Session.Framing
import LittleMan.Proofs.Wording

/-! What is printed about files, line by line. The lines with hints are told from the others by how they begin,
and without them the output is the one that is printed when no hints are wanted. -/

namespace LittleMan

/-- How a line with a hint begins. -/
def hintMark : List CodePoint := Text.toList "\x1b[35mHint "

/-- A text without its lines that begin as hints do. -/
def dropHints (t : Text) : Text :=
  Text.ofList ([.scalar '\n'].intercalate ((t.toList.splitOn (.scalar '\n')).filter (!hintMark.isPrefixOf ·)))

/-- What is printed in one piece. -/
inductive Printed where
  | error (place message : Text) (span : Span) (line : List CodePoint)
  | hint (place title : Text)
  | missing (path : Text)

namespace Printed

def isHint : Printed → Bool
  | hint .. => true
  | error .. | missing _ => false

/-- The first line of a message. -/
def heading (severity : Severity) (place message : Text) : List CodePoint :=
  (severity.colour ++ severity.title ++ " " ++ place ++ ": " ++ message).toList ++
    Text.toList "\x1b[0m"

def lines : Printed → List (List CodePoint)
  | error place message span line =>
    [heading .error place message, span.margin ++ line, span.underline]
  | hint place title => [heading .hint place title]
  | missing path => [("File not found: " ++ path).toList]

def text (ps : List Printed) : Text :=
  Text.ofList ((ps.flatMap lines).flatMap (· ++ [.scalar '\n']))

/-- Every line of it is one line, and it begins as a hint just if it is one. -/
structure IsPlain (p : Printed) : Prop where
  unbroken : ∀ l ∈ p.lines, .scalar '\n' ∉ l
  begins : ∀ l ∈ p.lines, hintMark.isPrefixOf l = p.isHint

theorem text_append (ps qs : List Printed) : text (ps ++ qs) = text ps ++ text qs := by
  simp only [text, List.flatMap_append, Text.ofList_append]

theorem text_missing (path : Text) : text [missing path] = "File not found: " ++ path ++ "\n" := by
  have hend : Text.toList "\n" = [.scalar '\n'] := by decide
  rw [← Text.toList_inj, Text.toList_append, hend, text]
  simp [lines]

theorem intercalate_newline (lines : List (List CodePoint)) :
    [.scalar '\n'].intercalate (lines ++ [[]]) = lines.flatMap (· ++ [.scalar '\n']) := by
  induction lines with
  | nil => rfl
  | cons line lines ih =>
    rw [List.cons_append, List.intercalate_cons_of_ne_nil (by simp), ih, List.flatMap_cons]

theorem splitOn_newline {lines : List (List CodePoint)} (h : ∀ l ∈ lines, .scalar '\n' ∉ l) :
    (lines.flatMap (· ++ [.scalar '\n'])).splitOn (.scalar '\n') = lines ++ [[]] := by
  rw [← intercalate_newline, List.splitOn_intercalate]
  · intro l hl
    rcases List.mem_append.1 hl with hl | hl
    · exact h l hl
    · obtain rfl := List.mem_singleton.1 hl
      exact List.not_mem_nil
  · simp

theorem filter_lines {ps : List Printed} (h : ∀ p ∈ ps, p.IsPlain) :
    (ps.flatMap lines).filter (!hintMark.isPrefixOf ·) = (ps.filter (!·.isHint)).flatMap lines := by
  induction ps with
  | nil => rfl
  | cons p ps ih =>
    have hp := (h p List.mem_cons_self).begins
    rw [List.flatMap_cons, List.filter_append, ih fun q hq => h q (List.mem_cons_of_mem _ hq)]
    cases hhint : p.isHint with
    | true =>
      have hnone : p.lines.filter (!hintMark.isPrefixOf ·) = [] :=
        List.filter_eq_nil_iff.2 fun l hl => by rw [hp l hl, hhint]; decide
      rw [hnone, List.filter_cons_of_neg (by simp [hhint]), List.nil_append]
    | false =>
      have hall : p.lines.filter (!hintMark.isPrefixOf ·) = p.lines :=
        List.filter_eq_self.2 fun l hl => by rw [hp l hl, hhint]; rfl
      rw [hall, List.filter_cons_of_pos (by simp [hhint]), List.flatMap_cons]

theorem dropHints_text {ps : List Printed} (h : ∀ p ∈ ps, p.IsPlain) :
    dropHints (text ps) = text (ps.filter (!·.isHint)) := by
  have hunbroken : ∀ l ∈ ps.flatMap lines, .scalar '\n' ∉ l := by
    intro l hl
    obtain ⟨p, hp, hl⟩ := List.mem_flatMap.1 hl
    exact (h p hp).unbroken l hl
  have hlast : [[]].filter (fun l => !hintMark.isPrefixOf l) = [[]] := rfl
  simp only [dropHints, text, splitOn_newline hunbroken, List.filter_append, filter_lines h, hlast,
    intercalate_newline]

theorem isDigit_or_eq_minus {n : Int} {c : CodePoint} (h : c ∈ Text.toList (toString n)) :
    c.isDigit = true ∨ c = '-' := by
  cases n with
  | ofNat n =>
    have hshown : toString (Int.ofNat n) = String.ofList (Nat.toDigits 10 n) := rfl
    rw [hshown, Text.toList_ofString, String.toList_ofList] at h
    exact Or.inl (Frame.isDigit_of_mem h)
  | negSucc n =>
    have hshown : toString (Int.negSucc n) = "-" ++ String.ofList (Nat.toDigits 10 (n + 1)) := rfl
    have hminus : Text.toList "-" = [.scalar '-'] := by decide
    rw [hshown, Text.ofString_append, Text.toList_append, hminus, Text.toList_ofString,
      String.toList_ofList] at h
    rcases List.mem_cons.1 h with rfl | h
    · exact Or.inr rfl
    · exact Or.inl (Frame.isDigit_of_mem h)

theorem unbroken_toString (n : Int) : Unbroken (toString n) := by
  intro h
  rcases isDigit_or_eq_minus h with h | h
  · exact absurd h (by decide : ¬ (CodePoint.scalar '\n').isDigit = true)
  · exact absurd h (by decide : ¬ CodePoint.scalar '\n' = '-')

theorem unbroken_place {s : Source} {span : Span} {place : Text} (hs : Unbroken s.name)
    (h : s.place span = .ok place) : Unbroken place := by
  have hnumber : ∀ {n : Int} {t : Text}, Decimal.text? n = some t → Unbroken t := by
    intro n t ht
    rw [Decimal.text?] at ht
    split at ht
    · obtain rfl := Option.some.inj ht
      exact unbroken_toString n
    · cases ht
  rw [Source.place] at h
  split at h
  · next line col hline hcol =>
    obtain rfl := Except.ok.inj h
    exact (((hs.append (by decide)).append (hnumber hline)).append (by decide)).append (hnumber hcol)
  · cases h

theorem newline_not_mem_heading {severity : Severity} {place message : Text} (hp : Unbroken place)
    (hm : Unbroken message) : .scalar '\n' ∉ heading severity place message := by
  have hstart : Unbroken (severity.colour ++ severity.title ++ " ") := by
    cases severity <;> decide
  intro h
  rcases List.mem_append.1 h with h | h
  · exact ((hstart.append hp).append (by decide)).append hm h
  · exact absurd h (by decide)

theorem isPrefixOf_heading (severity : Severity) (place message : Text) :
    hintMark.isPrefixOf (heading severity place message) = (severity == .hint) := by
  have hhint : (Severity.hint.colour ++ Severity.hint.title ++ " ").toList = hintMark := by decide
  have herror : (Severity.error.colour ++ Severity.error.title ++ " ").toList =
      Text.toList "\x1b[31mError " := by decide
  simp only [heading, Text.append_assoc]
  cases severity with
  | hint =>
    rw [← Text.append_assoc, ← Text.append_assoc, Text.toList_append, hhint, List.append_assoc]
    exact List.isPrefixOf_iff_prefix.2 (List.prefix_append _ _)
  | error =>
    rw [← Text.append_assoc, ← Text.append_assoc, Text.toList_append, herror]
    rfl

theorem mem_margin {span : Span} {c : CodePoint} (h : c ∈ span.margin) :
    c.isDigit = true ∨ c = '-' ∨ c = ' ' ∨ c = '|' := by
  rw [Span.margin, Source.marginNumber, List.mem_append, List.mem_append] at h
  rcases h with (h | h) | h
  · exact Or.inr (Or.inr (Or.inl (List.eq_of_mem_replicate h)))
  · exact (isDigit_or_eq_minus h).imp_right Or.inl
  · have hbar : Text.toList " | " = [.scalar ' ', .scalar '|', .scalar ' '] := by decide
    simp only [hbar, List.mem_cons, List.not_mem_nil, or_false] at h
    tauto

theorem isPrefixOf_margin (span : Span) (line : List CodePoint) :
    hintMark.isPrefixOf (span.margin ++ line) = false := by
  cases hmargin : span.margin with
  | nil =>
    have hbar := (List.append_eq_nil_iff.1 hmargin).2
    cases hbar
  | cons c rest =>
    have hc : .scalar '\x1b' ≠ c := by
      rintro rfl
      have hmem : .scalar '\x1b' ∈ span.margin := hmargin ▸ List.mem_cons_self
      exact absurd (mem_margin hmem) (by decide)
    have hmark : hintMark = .scalar '\x1b' :: hintMark.tail := by decide
    rw [List.cons_append, hmark, List.isPrefixOf_cons_cons, beq_eq_false_iff_ne.2 hc, Bool.false_and]

theorem mem_underline {span : Span} {c : CodePoint} (h : c ∈ span.underline) :
    c = ' ' ∨ c = '|' ∨ c = '^' ∨ c = '~' := by
  have hbar : ∀ c ∈ Text.toList "     | ", c = ' ' ∨ c = '|' := by decide
  simp only [Span.underline, List.mem_append, List.mem_cons, List.mem_replicate] at h
  rcases h with (h | h) | h
  · exact (hbar c h).imp_right Or.inl
  · exact Or.inl h.2
  · tauto

theorem isPlain_error {place message : Text} {span : Span} {line : List CodePoint}
    (hp : Unbroken place) (hm : Unbroken message) (hline : .scalar '\n' ∉ line) :
    (error place message span line).IsPlain := by
  constructor
  case unbroken =>
    intro l hl
    simp only [lines, List.mem_cons, List.not_mem_nil, or_false] at hl
    rcases hl with rfl | rfl | rfl
    · exact newline_not_mem_heading hp hm
    · intro h
      rcases List.mem_append.1 h with h | h
      · exact absurd (mem_margin h) (by decide)
      · exact hline h
    · exact fun h => absurd (mem_underline h) (by decide)
  case begins =>
    intro l hl
    simp only [lines, List.mem_cons, List.not_mem_nil, or_false] at hl
    rcases hl with rfl | rfl | rfl
    · exact isPrefixOf_heading .error place message
    · exact isPrefixOf_margin span line
    · rfl

theorem isPlain_hint {place title : Text} (hp : Unbroken place) (ht : Unbroken title) :
    (hint place title).IsPlain := by
  constructor
  case unbroken =>
    intro l hl
    obtain rfl := List.mem_singleton.1 hl
    exact newline_not_mem_heading hp ht
  case begins =>
    intro l hl
    obtain rfl := List.mem_singleton.1 hl
    exact isPrefixOf_heading .hint place title

theorem isPlain_missing {path : Text} (h : Unbroken path) : (missing path).IsPlain := by
  have hstart : Text.toList "File not found: " = .scalar 'F' :: Text.toList "ile not found: " := by decide
  constructor
  case unbroken =>
    intro l hl
    obtain rfl := List.mem_singleton.1 hl
    exact (by decide : Unbroken "File not found: ").append h
  case begins =>
    intro l hl
    obtain rfl := List.mem_singleton.1 hl
    rw [Text.toList_append, hstart]
    rfl

end Printed

/-- The second text is the first without its hints. If what is quoted in it holds no breaks, these are the lines
that begin as hints. -/
def LeavesOutHints (loud quiet : Text) (plain : Prop) : Prop :=
  ∃ ps : List Printed, loud = Printed.text ps ∧ quiet = Printed.text (ps.filter (!·.isHint)) ∧
    (plain → ∀ p ∈ ps, p.IsPlain)

namespace LeavesOutHints

variable {loud quiet loud' quiet' : Text} {plain plain' : Prop}

theorem empty : LeavesOutHints "" "" plain := ⟨[], rfl, rfl, fun _ p hp => by cases hp⟩

theorem of_kept {p : Printed} (hp : p.isHint = false) (h : plain → p.IsPlain) :
    LeavesOutHints (Printed.text [p]) (Printed.text [p]) plain := by
  refine ⟨[p], rfl, ?_, fun hplain => List.forall_mem_singleton.2 (h hplain)⟩
  rw [List.filter_cons_of_pos (by simp [hp]), List.filter_nil]

theorem of_hints {place : Text} {titles : List Text} (hp : plain → Unbroken place)
    (ht : ∀ title ∈ titles, Unbroken title) :
    LeavesOutHints (Printed.text (titles.map (.hint place))) "" plain := by
  have hnone : (titles.map (Printed.hint place)).filter (!·.isHint) = [] := by
    refine List.filter_eq_nil_iff.2 fun p hp => ?_
    obtain ⟨title, -, rfl⟩ := List.mem_map.1 hp
    exact Bool.false_ne_true
  refine ⟨_, rfl, ?_, fun hplain p hm => ?_⟩
  · rw [hnone]
    rfl
  · obtain ⟨title, htitle, rfl⟩ := List.mem_map.1 hm
    exact Printed.isPlain_hint (hp hplain) (ht title htitle)

theorem append (h : LeavesOutHints loud quiet plain) (h' : LeavesOutHints loud' quiet' plain) :
    LeavesOutHints (loud ++ loud') (quiet ++ quiet') plain := by
  obtain ⟨ps, rfl, rfl, hps⟩ := h
  obtain ⟨qs, rfl, rfl, hqs⟩ := h'
  refine ⟨ps ++ qs, (Printed.text_append ps qs).symm, ?_, fun hp q hq => ?_⟩
  · rw [List.filter_append, Printed.text_append]
  · exact (List.mem_append.1 hq).elim (hps hp q) (hqs hp q)

theorem mono (h : LeavesOutHints loud quiet plain) (hp : plain' → plain) :
    LeavesOutHints loud quiet plain' := by
  obtain ⟨ps, hloud, hquiet, hps⟩ := h
  exact ⟨ps, hloud, hquiet, fun h => hps (hp h)⟩

theorem dropHints_eq (h : LeavesOutHints loud quiet plain) (hp : plain) : dropHints loud = quiet := by
  obtain ⟨ps, rfl, rfl, hps⟩ := h
  exact Printed.dropHints_text (hps hp)

end LeavesOutHints

theorem mem_of_nth? {α : Type} {xs : List α} {n : Int} {x : α} (h : nth? xs n = some x) : x ∈ xs := by
  unfold nth? at h
  split at h
  · exact List.mem_of_getElem? h
  · split at h
    · exact List.mem_of_getElem? h
    · cases h

namespace Report

variable {s : Source} {a : Analysis} {labels : LabelTable} {d : Diagnostic} {hints : Bool}

theorem headline_eq (severity : Severity) (place message : Text) :
    headline severity place message =
      Text.ofList (Printed.heading severity place message ++ [.scalar '\n']) := by
  have hend : Text.toList "\x1b[0m\n" = Text.toList "\x1b[0m" ++ [.scalar '\n'] := by decide
  rw [headline, Printed.heading, ← Text.toList_inj, Text.toList_append, hend, List.append_assoc]

theorem message_error_ok {text out : Text} {span : Span}
    (h : message .error text s span true = .ok out) :
    ∃ place line, s.place span = .ok place ∧ line ∈ s.lines ∧
      out = Printed.text [.error place text span line] := by
  obtain ⟨place, shown, hplace, hview, rfl⟩ := message_ok h
  cases hline : nth? s.lines span.line with
  | none => simp [Source.view, hline] at hview
  | some line =>
    refine ⟨place, line, hplace, mem_of_nth? hline, ?_⟩
    rw [Source.view_ok hline hview, headline_eq, ← Text.ofList_append]
    simp [Printed.text, Printed.lines]

theorem mapM_message_hint {place : Text} {span : Span} (hplace : s.place span = .ok place)
    (titles : List Text) :
    titles.mapM (fun title => message .hint title s span false) =
      .ok (titles.map fun title => Printed.text [.hint place title]) := by
  have hone : (fun title => message .hint title s span false) =
      fun title => pure (Printed.text [.hint place title]) := by
    funext title
    have htext : Printed.text [.hint place title] = headline .hint place title ++ "" := by
      rw [headline_eq, Text.append_empty]
      simp [Printed.text, Printed.lines]
    rw [message, hplace, htext]
    rfl
  rw [hone, List.mapM_pure]
  rfl

theorem join_text_hint (place : Text) (titles : List Text) :
    Text.join (titles.map fun title => Printed.text [.hint place title]) =
      Printed.text (titles.map (.hint place)) := by
  induction titles with
  | nil => rfl
  | cons title titles ih =>
    rw [List.map_cons, List.map_cons, Text.join_cons, ih, ← Printed.text_append]
    rfl

theorem diagnostic_without_hints {head : Text} (labels : LabelTable) (hd : d.severity = .error)
    (hhead : message .error d.message.display s d.span true = .ok head) :
    diagnostic s labels false d = .ok head := by
  rw [diagnostic, hd, hhead]
  rfl

theorem diagnostic_with_hints {place head out : Text} (hd : d.severity = .error)
    (hplace : s.place d.span = .ok place)
    (hhead : message .error d.message.display s d.span true = .ok head)
    (h : diagnostic s labels true d = .ok out) :
    ∃ actions, proposeActions s (some labels) [d] (fun _ => true) = .ok actions ∧
      out = head ++ Printed.text ((actions.map Action.title).map (.hint place)) := by
  cases hactions : proposeActions s (some labels) [d] (fun _ => true) with
  | error e =>
    rw [diagnostic, hd, hhead] at h
    simp only [hactions, bind, Except.bind] at h
    cases h
  | ok actions =>
    have hhints : actions.mapM (fun a => message .hint a.title s d.span false) =
        .ok ((actions.map Action.title).map fun title => Printed.text [.hint place title]) := by
      rw [← mapM_message_hint hplace, List.mapM_map]
      rfl
    rw [diagnostic, hd, hhead] at h
    simp only [hactions, bind, Except.bind, hhints, join_text_hint] at h
    exact ⟨actions, rfl, (Except.ok.inj h).symm⟩

theorem exists_quiet_diagnostic {out : Text} (ha : analyze s = .ok a) (hd : d ∈ a.diagnostics)
    (h : diagnostic s labels hints d = .ok out) :
    ∃ quiet, diagnostic s labels false d = .ok quiet ∧ LeavesOutHints out quiet (Unbroken s.name) := by
  obtain ⟨r, hr, w, habout⟩ := exists_isAbout ha hd
  cases hhead : message .error d.message.display s d.span true with
  | error e =>
    rw [diagnostic, habout.severity, hhead] at h
    cases h
  | ok head =>
    have hquiet := diagnostic_without_hints labels habout.severity hhead
    obtain ⟨place, line, hplace, hline, rfl⟩ := message_error_ok hhead
    have hunbroken : Unbroken s.name → Unbroken place := fun hname =>
      Printed.unbroken_place hname hplace
    have hkept : LeavesOutHints (Printed.text [.error place d.message.display d.span line])
        (Printed.text [.error place d.message.display d.span line]) (Unbroken s.name) :=
      .of_kept rfl fun hname => Printed.isPlain_error (hunbroken hname) (isOneLine_of_mem ha hd).message
        (not_break_of_mem_linesOf (s.lines_eq ▸ hline)).2
    refine ⟨_, hquiet, ?_⟩
    cases hints with
    | false =>
      obtain rfl := Except.ok.inj (hquiet.symm.trans h)
      exact hkept
    | true =>
      obtain ⟨actions, hactions, rfl⟩ := diagnostic_with_hints habout.severity hplace hhead h
      have htitles : ∀ title ∈ actions.map Action.title, Unbroken title :=
        List.forall_mem_map.2 fun action hm => unbroken_title ha hd hactions hm
      have hall := hkept.append (.of_hints hunbroken htitles)
      rwa [Text.append_empty] at hall

theorem exists_quiet_diagnostics {ds : List Diagnostic} {out : Text} (ha : analyze s = .ok a)
    (hds : ∀ d ∈ ds, d ∈ a.diagnostics) (h : diagnostics s labels hints ds = .ok out) :
    ∃ quiet, diagnostics s labels false ds = .ok quiet ∧
      LeavesOutHints out quiet (Unbroken s.name) := by
  induction ds generalizing out with
  | nil =>
    obtain rfl := Except.ok.inj h
    exact ⟨"", rfl, .empty⟩
  | cons d ds ih =>
    rw [diagnostics] at h
    cases hhere : diagnostic s labels hints d with
    | error e =>
      rw [hhere] at h
      cases h
    | ok here =>
      cases hlater : diagnostics s labels hints ds with
      | error e =>
        rw [hhere, hlater] at h
        cases h
      | ok later =>
        rw [hhere, hlater] at h
        obtain rfl := Except.ok.inj h
        obtain ⟨quiet, hquiet, hout⟩ :=
          exists_quiet_diagnostic ha (hds d List.mem_cons_self) hhere
        obtain ⟨quiet', hquiet', hout'⟩ :=
          ih (fun e he => hds e (List.mem_cons_of_mem _ he)) hlater
        refine ⟨quiet ++ quiet', ?_, hout.append hout'⟩
        rw [diagnostics, hquiet, hquiet']
        rfl

theorem check_ok_iff {out : Text} {clean : Bool} : check s hints = .ok (out, clean) ↔
    ∃ a, analyze s = .ok a ∧ diagnostics s a.labels hints a.diagnostics = .ok out ∧
      clean = a.diagnostics.isEmpty := by
  rw [check]
  cases ha : analyze s with
  | error e => simp [bind, Except.bind]
  | ok a =>
    cases hout : diagnostics s a.labels hints a.diagnostics with
    | error e => simp [bind, Except.bind, hout]
    | ok text => simp [bind, Except.bind, hout, pure, Except.pure, eq_comm]

theorem exists_quiet_check {out : Text} {clean : Bool} (h : check s hints = .ok (out, clean)) :
    ∃ quiet, check s false = .ok (quiet, clean) ∧ LeavesOutHints out quiet (Unbroken s.name) := by
  obtain ⟨a, ha, hout, rfl⟩ := check_ok_iff.1 h
  obtain ⟨quiet, hquiet, hleaves⟩ := exists_quiet_diagnostics ha (fun d hd => hd) hout
  exact ⟨quiet, check_ok_iff.2 ⟨a, ha, hquiet, rfl⟩, hleaves⟩

end Report

end LittleMan
