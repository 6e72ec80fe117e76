import LittleMan.Proofs.MarkedWords
import LittleMan.Proofs.Printing

/-! The two lines that are printed below a diagnostic. The caret and the tildes stand under the characters
of its span as long as the number of the line has four digits or fewer; a longer number moves the line
to the right, and the carets stay where they are. -/

namespace LittleMan

/-- What stands before a line that is printed, its number first. -/
def Span.margin (span : Span) : List CodePoint :=
  Source.marginNumber (span.line + 1) ++ Text.toList " | "

/-- The line that is printed below the line of a span. -/
def Span.underline (span : Span) : List CodePoint :=
  Text.toList "     | " ++ List.replicate span.col.toNat (.scalar ' ') ++
    .scalar '^' :: List.replicate (span.len - 1).toNat (.scalar '~')

/-- The only caret of a line is at `start`, and carets and tildes are at the `len` places from there on. -/
structure MarksAt (lower : List CodePoint) (start len : Int) : Prop where
  caret : ∀ i : Nat, lower[i]? = some (.scalar '^') ↔ (i : Int) = start
  marks : ∀ i : Nat, lower[i]? = some (.scalar '^') ∨ lower[i]? = some (.scalar '~') ↔
    start ≤ i ∧ i < start + len

/-- What is shown for a span is its line behind the margin, and below it a line that marks the places of the
span in the line above. -/
def Source.PointsAt (s : Source) (span : Span) (shown : Text) : Prop :=
  ∃ line lower, s.lines[span.line.toNat]? = some line ∧
    shown = Text.ofList (span.margin ++ line ++ .scalar '\n' :: (lower ++ [.scalar '\n'])) ∧
    MarksAt lower (span.margin.length + span.col) span.len

theorem getElem?_append_caret (before : List CodePoint) (k i : Nat) :
    (before ++ .scalar '^' :: List.replicate k (.scalar '~'))[i]? =
      if i < before.length then before[i]?
      else if i = before.length then some (.scalar '^')
      else if i < before.length + (k + 1) then some (.scalar '~') else none := by
  rcases Nat.lt_trichotomy i before.length with hi | rfl | hi
  · rw [if_pos hi, List.getElem?_append_left hi]
  · rw [if_neg (Nat.lt_irrefl _), if_pos rfl, List.getElem?_append_right (Nat.le_refl _), Nat.sub_self,
      List.getElem?_cons_zero]
  · obtain ⟨j, rfl⟩ := Nat.exists_eq_add_of_lt hi
    have hj : before.length + j + 1 - before.length = j + 1 := by omega
    rw [if_neg (by omega), if_neg (by omega), List.getElem?_append_right (Nat.le_of_lt hi), hj,
      List.getElem?_cons_succ, List.getElem?_replicate]
    exact if_congr (by omega) rfl rfl

theorem marksAt_of_unmarked {before : List CodePoint} (h : ∀ c ∈ before, c ≠ '^' ∧ c ≠ '~') (k : Nat) :
    MarksAt (before ++ .scalar '^' :: List.replicate k (.scalar '~')) before.length (k + 1) := by
  have hbefore : ∀ i : Nat, before[i]? ≠ some (.scalar '^') ∧ before[i]? ≠ some (.scalar '~') := fun i =>
    ⟨fun hc => (h _ (List.mem_of_getElem? hc)).1 rfl, fun hc => (h _ (List.mem_of_getElem? hc)).2 rfl⟩
  constructor
  case caret =>
    intro i
    rw [getElem?_append_caret]
    split_ifs with hi he hlt
    · exact iff_of_false (hbefore i).1 (by omega)
    · exact iff_of_true rfl (by omega)
    · exact iff_of_false (by simp) (by omega)
    · exact iff_of_false (by simp) (by omega)
  case marks =>
    intro i
    rw [getElem?_append_caret]
    split_ifs with hi he hlt
    · exact iff_of_false (not_or.2 (hbefore i)) (by omega)
    · exact iff_of_true (Or.inl rfl) (by omega)
    · exact iff_of_true (Or.inr rfl) (by omega)
    · exact iff_of_false (by simp) (by omega)

namespace Source

variable {s : Source} {span : Span} {line : List CodePoint} {shown : Text}

theorem length_marginNumber (n : Nat) :
    (marginNumber n).length = max 4 (Nat.toDigits 10 n).length := by
  have hdigits : (Text.ofString (toString (n : Int))).toList = (Nat.toDigits 10 n).map .scalar := by
    have hshown : toString (n : Int) = String.ofList (Nat.toDigits 10 n) := rfl
    rw [hshown, Text.toList_ofString, String.toList_ofList]
  rw [marginNumber, hdigits, List.length_append, List.length_replicate, List.length_map]
  omega

theorem length_margin (hline : 0 ≤ span.line) :
    span.margin.length = 7 ↔ span.line < 9999 := by
  obtain ⟨n, hn⟩ := Int.eq_ofNat_of_zero_le hline
  have hnumber : span.line + 1 = (n + 1 : Nat) := by omega
  have hdigits : (Nat.toDigits 10 (n + 1)).length ≤ 4 ↔ n + 1 < 10 ^ 4 :=
    Nat.length_toDigits_le_iff (by decide) (by decide)
  have hbar : (Text.toList " | ").length = 3 := by decide
  rw [Span.margin, hnumber, List.length_append, length_marginNumber, hbar]
  omega

theorem repeatLength_ok {n : Int} {k : Nat} (h : repeatLength n = .ok k) : k = n.toNat := by
  unfold repeatLength at h
  generalize Int.pow 2 63 = largest at h
  generalize Int.pow 2 40 = limit at h
  split at h
  · cases h
  · split at h
    · cases h
    · exact (Except.ok.inj h).symm

theorem viewLines_ok {lines : List (List CodePoint)} (h : viewLines line span = .ok lines) :
    lines = [span.margin ++ line, span.underline] := by
  rw [viewLines] at h
  cases hbefore : repeatLength span.col with
  | error e =>
    rw [hbefore] at h
    cases h
  | ok before =>
    cases hafter : repeatLength (span.len - 1) with
    | error e =>
      rw [hbefore, hafter] at h
      cases h
    | ok after =>
      have hcol := repeatLength_ok hbefore
      have hlen := repeatLength_ok hafter
      rw [hbefore, hafter] at h
      rw [Span.margin, Span.underline, ← hcol, ← hlen]
      exact (Except.ok.inj h).symm

theorem view_ok (hline : nth? s.lines span.line = some line) (h : s.view span = .ok shown) :
    shown = Text.ofList (span.margin ++ line ++ .scalar '\n' :: (span.underline ++ [.scalar '\n'])) := by
  simp only [view, hline] at h
  cases hlines : viewLines line span with
  | error e =>
    rw [hlines] at h
    cases h
  | ok lines =>
    obtain rfl := viewLines_ok hlines
    rw [hlines] at h
    rw [← Except.ok.inj h]
    simp [List.flatMap_cons]

theorem marksAt_underline (hcol : 0 ≤ span.col) (hlen : 1 ≤ span.len) :
    MarksAt span.underline (7 + span.col) span.len := by
  have hmargin : ∀ c ∈ Text.toList "     | ", c ≠ '^' ∧ c ≠ '~' := by decide
  have hunmarked :
      ∀ c ∈ (Text.toList "     | " ++ List.replicate span.col.toNat (.scalar ' ') : List CodePoint),
        c ≠ '^' ∧ c ≠ '~' := by
    intro c hc
    rcases List.mem_append.1 hc with hc | hc
    · exact hmargin c hc
    · obtain rfl := List.eq_of_mem_replicate hc
      decide
  have hmarks := marksAt_of_unmarked hunmarked (span.len - 1).toNat
  have hstart : ((Text.toList "     | " ++
      List.replicate span.col.toNat (CodePoint.scalar ' ')).length : Int) = 7 + span.col := by
    have hlength : (Text.toList "     | ").length = 7 := by decide
    rw [List.length_append, hlength, List.length_replicate]
    omega
  have hcount : (((span.len - 1).toNat : Int) + 1) = span.len := by omega
  rwa [hstart, hcount] at hmarks

/-- The caret is always behind seven places, and the line is so only below a number of four digits. -/
theorem pointsAt_iff (hline : s.lines[span.line.toNat]? = some line) (hpos : 0 ≤ span.line)
    (hcol : 0 ≤ span.col) (hlen : 1 ≤ span.len) (h : s.view span = .ok shown) :
    s.PointsAt span shown ↔ span.line < 9999 := by
  have hnth : nth? s.lines span.line = some line := by rwa [nth?, if_pos hpos]
  have hmarks := marksAt_underline hcol hlen
  have hshown := view_ok hnth h
  rw [← length_margin hpos]
  constructor
  · rintro ⟨line', lower, hline', hlower, hpoints⟩
    obtain rfl := Option.some.inj (hline.symm.trans hline')
    obtain rfl : span.underline = lower := by
      have hsame := Text.ofList.inj (hshown.symm.trans hlower)
      simpa using hsame
    have hcaret := (hmarks.caret (7 + span.col).toNat).2 (by omega)
    have hplace := (hpoints.caret _).1 hcaret
    omega
  · intro hmargin
    refine ⟨line, span.underline, hline, hshown, ?_⟩
    rw [hmargin]
    exact hmarks

end Source

theorem Report.message_ok {severity : Severity} {text printed : Text} {s : Source} {span : Span}
    (h : message severity text s span true = .ok printed) :
    ∃ place shown, s.place span = .ok place ∧ s.view span = .ok shown ∧
      printed = headline severity place text ++ shown := by
  cases hplace : s.place span with
  | error e => simp [message, hplace, bind, Except.bind] at h
  | ok place =>
    cases hview : s.view span with
    | error e => simp [message, hplace, hview, bind, Except.bind] at h
    | ok shown =>
      rw [message, hplace] at h
      simp only [bind, Except.bind, hview, if_true] at h
      exact ⟨place, shown, rfl, rfl, (Except.ok.inj h).symm⟩

/-- Two bare numerals with `n` breaks between their lines. -/
def numeralsApart (n : Nat) : Source :=
  Source.named none (Text.toList "LDA 5" ++ (List.replicate n (.scalar '\n') ++ Text.toList "LDA 5"))

/-- The diagnostic of each of the two. -/
def bareFive (line : Nat) : Diagnostic := Analysis.numericNeedsHash line ⟨4, ['5']⟩

theorem linesOf_replicate_newline (n : Nat) (t : List CodePoint) :
    linesOf (List.replicate n (.scalar '\n') ++ t) = List.replicate n [] ++ linesOf t := by
  induction n with
  | zero => rfl
  | succ n ih => rw [List.replicate_succ, List.cons_append, linesOf_newline, ih]; rfl

theorem lines_numeralsApart (n : Nat) : (numeralsApart (n + 1)).lines =
    Text.toList "LDA 5" :: (List.replicate n [] ++ [Text.toList "LDA 5"]) := by
  have hr : .scalar '\r' ∉ Text.toList "LDA 5" := by decide
  have hn : .scalar '\n' ∉ Text.toList "LDA 5" := by decide
  rw [Source.lines_eq, numeralsApart, Source.named, List.replicate_succ, List.cons_append,
    linesOf_line_newline hr hn, linesOf_replicate_newline, linesOf_of_not_mem hr hn]

theorem readRecords_replicate_nil (n k : Nat) (lines : List (List CodePoint)) :
    readRecords k (List.replicate n [] ++ lines) = readRecords (k + n) lines := by
  induction n generalizing k with
  | zero => rfl
  | succ n ih =>
    rw [List.replicate_succ, List.cons_append, Nat.add_comm n, ← Nat.add_assoc, ← ih]
    rfl

theorem exists_analysis_numeralsApart (n : Nat) : ∃ a, analyze (numeralsApart (n + 1)) = .ok a ∧
    bareFive 0 ∈ a.diagnostics ∧ bareFive (n + 1) ∈ a.diagnostics := by
  have hread : Statement.read? (Text.toList "LDA 5") =
      some ⟨none, ⟨0, ['L', 'D', 'A']⟩, some ⟨4, ['5']⟩⟩ := by decide
  have hrecords : (numeralsApart (n + 1)).records =
      [⟨⟨none, ⟨0, ['L', 'D', 'A']⟩, some ⟨4, ['5']⟩⟩, 0⟩,
        ⟨⟨none, ⟨0, ['L', 'D', 'A']⟩, some ⟨4, ['5']⟩⟩, n + 1⟩] := by
    rw [Source.records, lines_numeralsApart, readRecords, hread, Nat.add_comm n,
      readRecords_replicate_nil, readRecords, hread]
    rfl
  have hfound : Analysis.inspectRecords (LabelTable.ofRecords (numeralsApart (n + 1)).records)
      (numeralsApart (n + 1)).records = .ok [bareFive 0, bareFive (n + 1)] := by
    rw [hrecords]
    rfl
  exact ⟨_, analyze_ok_iff.2 ⟨_, hfound, rfl⟩, by simp, by simp⟩

theorem last_line_numeralsApart (n : Nat) :
    (numeralsApart (n + 1)).lines[(bareFive (n + 1)).span.line.toNat]? = some (Text.toList "LDA 5") := by
  change (numeralsApart (n + 1)).lines[n + 1]? = some (Text.toList "LDA 5")
  have hlength : (List.replicate n ([] : List CodePoint)).length ≤ n := Nat.le_of_eq List.length_replicate
  rw [lines_numeralsApart, List.getElem?_cons_succ, List.getElem?_append_right hlength,
    List.length_replicate, Nat.sub_self]
  rfl

theorem length_text_numeralsApart (n : Nat) : (numeralsApart n).text.length = n + 10 := by
  simp only [numeralsApart, Source.named, List.length_append, List.length_replicate]
  have hfive : (Text.toList "LDA 5").length = 5 := by decide
  omega

/-- What is printed below a diagnostic points at it just if the number of its line has at most four digits. -/
theorem pointsAt_iff_of_mem {s : Source} {a : Analysis} {d : Diagnostic} (ha : analyze s = .ok a)
    (hd : d ∈ a.diagnostics) :
    (s.text.length < Report.sizeLimit → ∃ shown, s.view d.span = .ok shown) ∧
      ∀ shown, s.view d.span = .ok shown → (s.PointsAt d.span shown ↔ d.span.line < 9999) := by
  obtain ⟨r, line, hmarks⟩ := exists_marksWord ha hd
  have hline : s.lines[d.span.line.toNat]? = some line := by
    rw [hmarks.on_line]
    exact hmarks.line_eq
  have hpos : 0 ≤ d.span.line := by
    rw [hmarks.on_line]
    exact Int.natCast_nonneg _
  refine ⟨fun hsize => ?_, fun shown h =>
    Source.pointsAt_iff hline hpos hmarks.col_nonneg hmarks.len_pos h⟩
  obtain ⟨r, hr, w, habout⟩ := exists_isAbout ha hd
  obtain ⟨printed, hprinted⟩ := Report.exists_message habout hr hsize .error "" true
  obtain ⟨-, shown, -, hshown, -⟩ := Report.message_ok hprinted
  exact ⟨shown, hshown⟩

/-- The line with the number 10000 stands one place to the right of its caret. -/
theorem not_pointsAt_numeralsApart :
    ∃ a shown, analyze (numeralsApart 9999) = .ok a ∧ bareFive 9999 ∈ a.diagnostics ∧
      (numeralsApart 9999).view (bareFive 9999).span = .ok shown ∧
      shown = "10000 | LDA 5\n     |     ^\n" ∧
      ¬ (numeralsApart 9999).PointsAt (bareFive 9999).span shown := by
  obtain ⟨a, ha, -, hd⟩ := exists_analysis_numeralsApart 9998
  have hline := last_line_numeralsApart 9998
  have hview : (numeralsApart 9999).view (bareFive 9999).span =
      .ok "10000 | LDA 5\n     |     ^\n" := by
    have hnth : nth? (numeralsApart 9999).lines (bareFive 9999).span.line =
        some (Text.toList "LDA 5") := (nth?_natCast _ 9999).trans hline
    have hlines : Source.viewLines (Text.toList "LDA 5") (bareFive 9999).span =
        .ok [Text.toList "10000 | LDA 5", Text.toList "     |     ^"] := by decide +kernel
    rw [Source.view, hnth]
    simp only [hlines]
    decide +kernel
  refine ⟨a, _, ha, hd, hview, rfl, fun h => ?_⟩
  have hlt := (Source.pointsAt_iff hline (by decide) (by decide) (by decide) hview).1 h
  exact absurd hlt (by decide)

theorem pointsAt_iff_numeralsApart :
    ∃ a first last, analyze (numeralsApart 9999) = .ok a ∧
      bareFive 0 ∈ a.diagnostics ∧ bareFive 9999 ∈ a.diagnostics ∧
      (numeralsApart 9999).view (bareFive 0).span = .ok first ∧
      (numeralsApart 9999).view (bareFive 9999).span = .ok last ∧
      (numeralsApart 9999).PointsAt (bareFive 0).span first ∧
      ¬ (numeralsApart 9999).PointsAt (bareFive 9999).span last := by
  obtain ⟨a, ha, hfirst, hlast⟩ := exists_analysis_numeralsApart 9998
  have hsize : (numeralsApart 9999).text.length < Report.sizeLimit := by
    rw [length_text_numeralsApart]
    decide
  obtain ⟨hprinted, hpoints⟩ := pointsAt_iff_of_mem ha hfirst
  obtain ⟨hprinted', hpoints'⟩ := pointsAt_iff_of_mem ha hlast
  obtain ⟨first, hview⟩ := hprinted hsize
  obtain ⟨last, hview'⟩ := hprinted' hsize
  refine ⟨a, first, last, ha, hfirst, hlast, hview, hview', (hpoints first hview).2 (by decide), ?_⟩
  intro h
  exact absurd ((hpoints' last hview').1 h) (by decide)

end LittleMan
