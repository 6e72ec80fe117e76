import LittleMan.Proofs.LineGrammar
import LittleMan.Proofs.Session.RangedActions

/-! What is shown at a place of a document. The client points at a code unit and is told of code units; as all
of a line up to the end of its mnemonic is ASCII, the server finds the mnemonic where the client sees it. -/

namespace LittleMan

open Handler Json

/-- The place is on the mnemonic of its line, which starts in column `col` and is one of the catalog. Its end
is part of it. -/
structure PointsAt (text : List CodePoint) (k units : Nat) (m : Mnemonic) (col : Nat) : Prop where
  statement : ∃ line st, (linesOf text)[k]? = some line ∧ Statement.read? line = some st ∧
    st.mnemonic = ⟨col, m.text⟩
  start : col ≤ units
  stop : units ≤ col + 3

theorem Statement.length_mnemonic_of_read? {line : List CodePoint} {st : Statement}
    (h : read? line = some st) :
    st.mnemonic.text.length = 3 ∧ ∀ c ∈ st.mnemonic.text, c.isUpper = true := by
  have hread := lineReading_read? line
  rw [h] at hread
  cases hread with
  | labelled hl => exact ⟨hl.instruction.length, hl.instruction.upper⟩
  | unlabelled _ hu => exact ⟨hu.instruction.length, hu.instruction.upper⟩

theorem Statement.ascii_of_mem_take {line : List CodePoint} {st : Statement} (h : read? line = some st) :
    st.mnemonic.col + 3 ≤ line.length ∧ ∀ c ∈ line.take (st.mnemonic.col + 3), c.toNat < 128 := by
  obtain ⟨hlength, hupper⟩ := length_mnemonic_of_read? h
  have hmem : st.mnemonic ∈ st.words := by simp [words]
  obtain ⟨head, tail, rfl, hcol, hascii⟩ := followsAscii_of_read? h hmem
  have hall : ∀ c ∈ head ++ st.mnemonic.text, c.toNat < 128 := fun c hc =>
    (List.mem_append.1 hc).elim (hascii c) fun hc => ascii_of_isUpper (hupper c hc)
  have hstop : st.mnemonic.col + 3 = (head ++ st.mnemonic.text).length := by
    rw [List.length_append, hcol, hlength]
  rw [← List.append_assoc, hstop, List.take_left]
  exact ⟨by simp, hall⟩

section

variable {line : List CodePoint} {st : Statement}

theorem Statement.unitColumn_of_read? {col : Nat} (h : read? line = some st)
    (hcol : col ≤ st.mnemonic.col + 3) : unitColumn line col = col := by
  obtain ⟨hlength, hascii⟩ := ascii_of_mem_take h
  exact unitColumn_of_ascii (by omega) fun c hc => hascii c (List.take_subset_take_left line hcol hc)

theorem Statement.touches_iff_of_read? {units : Nat} (h : read? line = some st) :
    (st.mnemonic.col ≤ ofUnits line units ∧ ofUnits line units ≤ st.mnemonic.col + 3) ↔
      st.mnemonic.col ≤ units ∧ units ≤ st.mnemonic.col + 3 := by
  obtain ⟨-, hascii⟩ := ascii_of_mem_take h
  have hwidth : ∀ c ∈ line.take st.mnemonic.col, unitWidth c = 1 := fun c hc =>
    unitWidth_of_ascii (hascii c (List.take_subset_take_left line (by omega) hc))
  have hstart : (st.mnemonic.col : Int) ≤ ofUnits line units ↔ st.mnemonic.col ≤ units := by
    rw [le_ofUnits_iff (by omega) hwidth, unitColumn_of_read? h (by omega), Int.ofNat_le]
  have hstop : ofUnits line units ≤ (st.mnemonic.col + 3 : Nat) ↔ units ≤ st.mnemonic.col + 3 := by
    rw [ofUnits_le_iff, unitColumn_of_read? h (Nat.le_refl _), Int.ofNat_le]
  exact and_congr hstart hstop

end

namespace Session

/-- The message asks what is to be shown at a place of a document. -/
structure AsksHover (fields : List (Text × Json)) (uri : Json) (k units : Nat) : Prop where
  method : lookup "method" fields = some (.str "textDocument/hover")
  uri : uriOf (messageParams fields) = .ok uri
  position : ∃ v, (messageParams fields).field "position" = .ok v ∧
    Client.position? v = some ⟨k, units⟩

section

variable {s : Source} {v : Json} {k units : Nat}

theorem hoverAt_of_no_line (hv : Client.position? v = some ⟨k, units⟩) (hline : s.lines[k]? = none) :
    hoverAt s v = .ok none := by
  obtain ⟨hl, -⟩ := Client.exists_of_position? hv
  have hle : (Number.whole s.lines.length).le (.whole k) = true := by
    have hlength := List.getElem?_eq_none_iff.1 hline
    rw [Number.le_whole]
    omega
  have hnumber : (Json.int k).number = .ok (.whole k) := rfl
  simp only [hoverAt, Client.field_of_field? hl, hnumber, bind, Except.bind, hle, if_true]
  rfl

theorem hoverAt_of_line {line : List CodePoint} (hv : Client.position? v = some ⟨k, units⟩)
    (hline : s.lines[k]? = some line) :
    hoverAt s v = .ok ((Statement.read? line).bind fun st =>
      (Mnemonic.ofText? st.mnemonic.text).bind fun m =>
        if st.mnemonic.col ≤ units ∧ units ≤ st.mnemonic.col + 3 then
          some (m, ⟨k, st.mnemonic.col, 3⟩)
        else none) := by
  obtain ⟨hl, hc⟩ := Client.exists_of_position? hv
  have hle : ¬ (Number.whole s.lines.length).le (.whole k) = true := by
    have hlt := (List.getElem?_eq_some_iff.1 hline).1
    rw [Number.le_whole]
    omega
  have hnth : nth? s.lines (k : Int) = some line := by rw [nth?_natCast, hline]
  have hnumber : ∀ n : Int, (Json.int n).number = .ok (.whole n) := fun _ => rfl
  simp only [hoverAt, Client.field_of_field? hl, Client.field_of_field? hc, hnumber, bind, Except.bind,
    hle, hnth]
  cases hst : Statement.read? line with
  | none => rfl
  | some st =>
    cases hm : Mnemonic.ofText? st.mnemonic.text with
    | none => simp only [hm, Option.bind_some, Option.bind_none]; rfl
    | some m =>
      have hspan : st.mnemonic.span k = ⟨k, st.mnemonic.col, 3⟩ := by
        rw [Word.span, (Statement.length_mnemonic_of_read? hst).1]
        rfl
      simp only [hm, Option.bind_some, hspan, Span.stopCol, columnOf, Bool.and_eq_true, Number.le_whole,
        Statement.touches_iff_of_read? hst]
      by_cases hon : st.mnemonic.col ≤ units ∧ units ≤ st.mnemonic.col + 3
      · rw [if_pos hon, if_pos hon]
        rfl
      · rw [if_neg hon, if_neg hon]
        rfl

/-- At a place of the document there is shown the mnemonic that the place is on, or nothing. -/
theorem exists_hoverAt (s : Source) (hv : Client.position? v = some ⟨k, units⟩) :
    ∃ shown, hoverAt s v = .ok shown ∧
      ∀ m span, shown = some (m, span) ↔ ∃ col : Nat, PointsAt s.text k units m col ∧ span = ⟨k, col, 3⟩ := by
  cases hline : s.lines[k]? with
  | none =>
    refine ⟨none, hoverAt_of_no_line hv hline, fun m span => ⟨fun h => absurd h (by simp), ?_⟩⟩
    rintro ⟨col, ⟨⟨line, st, hat, -⟩, -, -⟩, -⟩
    rw [← s.lines_eq, hline] at hat
    cases hat
  | some line =>
    refine ⟨_, hoverAt_of_line hv hline, fun m span => ?_⟩
    simp only [Option.bind_eq_some_iff, Option.ite_none_right_eq_some, Option.some.injEq, Prod.mk.injEq,
      Mnemonic.ofText?_eq_some_iff]
    constructor
    · rintro ⟨st, hst, m, hm, ⟨hstart, hstop⟩, rfl, rfl⟩
      refine ⟨st.mnemonic.col, ⟨⟨line, st, ?_, hst, ?_⟩, hstart, hstop⟩, rfl⟩
      · rw [← s.lines_eq, hline]
      · rw [hm]
    · rintro ⟨col, ⟨⟨line', st, hat, hst, hword⟩, hstart, hstop⟩, rfl⟩
      rw [← s.lines_eq, hline] at hat
      obtain rfl := Option.some.inj hat
      refine ⟨st, hst, m, ?_, ?_, rfl, ?_⟩
      · rw [hword]
      · rw [hword]
        exact ⟨hstart, hstop⟩
      · rw [hword]

end

/-- What is answered with when that is shown at a place, on a line that came as a number. -/
def hoverResult (s : Source) : Option (Mnemonic × Span) → Json
  | none => .null
  | some (m, span) =>
    .obj
      [("contents", .obj [("kind", .str "markdown"), ("value", .str (hoverText m))]),
        ("range", rangeWritten s span.start span.stop false)]

section

variable {s : Source} {k units col : Nat} {m : Mnemonic}

theorem range?_hoverResult (h : PointsAt s.text k units m col) :
    Client.range? (hoverResult s (some (m, ⟨k, col, 3⟩))) =
      some (⟨k, col⟩, ⟨k, (col + 3 : Nat)⟩) := by
  obtain ⟨line, st, hline, hst, hword⟩ := h.statement
  have hcol : st.mnemonic.col = col := by rw [hword]
  have htext : s.columnText k = line := by simp [Source.columnText, s.lines_eq, hline]
  have hstart : unitColumn line col = col := Statement.unitColumn_of_read? hst (by omega)
  have hstop : unitColumn line (col + 3 : Nat) = (col + 3 : Nat) :=
    Statement.unitColumn_of_read? hst (by omega)
  rw [Int.natCast_add, Int.cast_ofNat_Int] at hstop
  simp [Client.range?, Client.position?, Client.field?, hoverResult, rangeWritten, rangeObject,
    Position.written, positionObject, lineJson, lookup, Span.start, Span.stop, Span.stopCol, htext, hstart,
    hstop]

end

variable {server : Server} {fields : List (Text × Json)} {uri v : Json} {doc : Document} {s : Source}
variable {k units : Nat}

theorem turn_of_hover (files : FileReader) {shown : Option (Mnemonic × Span)} {place : Position}
    (hi : server.initialized = true)
    (hm : lookup "method" fields = some (.str "textDocument/hover"))
    (huri : uriOf (messageParams fields) = .ok uri)
    (hposition : (messageParams fields).field "position" = .ok v) (hv : Client.position? v = some place)
    (hfind : server.find? uri = .ok (some doc)) (hs : doc.source? = .ok s)
    (hshown : hoverAt s v = .ok shown) :
    turn files server (.message fields) =
      { server, out := [resultReply (messageId fields) (hoverResult s shown)] } := by
  have hline := Client.field_of_field? (Client.exists_of_position? hv).1
  refine turn_of_handled hi hm ((handle_hover files _ _ _).trans ?_)
  simp only [bind_apply, liftM_apply, huri, hposition, hover, Handler.server, hfind, hs, hshown]
  cases shown with
  | none => rfl
  | some p =>
    have hnumber : (Json.int place.line).isBool = false := rfl
    simp only [bind_apply, liftM_apply, hline, hnumber, toJson_of_hoverAt hshown false]
    rfl

/-- A request for what is shown at a place of an open document is answered with nothing but the mnemonic that
the place is on, and with where the mnemonic starts and ends in code units. -/
theorem hover_on_mnemonic (files : FileReader) {text : Text} (hi : server.initialized = true)
    (hask : AsksHover fields uri k units) (hfind : server.find? uri = .ok (some doc))
    (htext : doc.text = .str text) :
    ∃ result, turn files server (.message fields) =
        { server, out := [resultReply (messageId fields) result] } ∧
      (result ≠ .null ↔ ∃ m col, PointsAt text.toList k units m col) ∧
      ∀ m col, PointsAt text.toList k units m col →
        Client.range? result = some (⟨k, col⟩, ⟨k, (col + 3 : Nat)⟩) := by
  obtain ⟨v, hposition, hv⟩ := hask.position
  obtain ⟨s, hs, hstext⟩ : ∃ s, doc.source? = .ok s ∧ s.text = text.toList :=
    ⟨_, by rw [Document.source?, htext], rfl⟩
  obtain ⟨shown, hshown, hiff⟩ := exists_hoverAt s hv
  rw [hstext] at hiff
  refine ⟨_, turn_of_hover files hi hask.method hask.uri hposition hv hfind hs hshown, ?_, ?_⟩
  · cases shown with
    | none =>
      refine ⟨fun h => absurd rfl h, ?_⟩
      rintro ⟨m, col, h⟩
      cases (hiff m _).2 ⟨col, h, rfl⟩
    | some p =>
      obtain ⟨col, hpoints, -⟩ := (hiff p.1 p.2).1 rfl
      refine ⟨fun _ => ⟨p.1, col, hpoints⟩, fun _ hnull => ?_⟩
      cases hnull
  · intro m col hpoints
    rw [(hiff m _).2 ⟨col, hpoints, rfl⟩]
    exact range?_hoverResult (hstext ▸ hpoints)

/-- A label before a mnemonic, and characters of two code units behind it. -/
def labelledBranch : Text := "; 𝄞\r\nLOOP\tBRA @𝄞 ; 𝄞"

/-- A client points at the end of the mnemonic. -/
def hoverBehindBranch : List (Text × Json) :=
  [("jsonrpc", .str "2.0"), ("id", .int 1), ("method", .str "textDocument/hover"),
    ("params", .obj [("textDocument", .obj [("uri", .str "file:///a")]),
      ("position", .obj [("line", .int 1), ("character", .int 8)])])]

def branching : Server := serverWith { uri := .str "file:///a", text := .str labelledBranch }

theorem hover_on_mnemonic_labelledBranch :
    ∃ result, turn noFiles branching (.message hoverBehindBranch) =
        { server := branching, out := [resultReply (.int 1) result] } ∧
      result ≠ .null ∧ Client.range? result = some (⟨1, 5⟩, ⟨1, 8⟩) := by
  have hask : AsksHover hoverBehindBranch (.str "file:///a") 1 8 := ⟨rfl, rfl, _, rfl, rfl⟩
  have hfind : branching.find? (.str "file:///a") =
      .ok (some { uri := .str "file:///a", text := .str labelledBranch }) := rfl
  have hpoints : PointsAt labelledBranch.toList 1 8 .bra 5 := by
    refine ⟨⟨Text.toList "LOOP\tBRA @𝄞 ; 𝄞", ⟨some ⟨0, Text.toList "LOOP"⟩, ⟨5, Text.toList "BRA"⟩,
      some ⟨9, Text.toList "@𝄞"⟩⟩, ?_⟩, by decide, by decide⟩
    decide +kernel
  obtain ⟨result, hturn, hshown, hrange⟩ := hover_on_mnemonic noFiles rfl hask hfind rfl
  exact ⟨result, hturn, hshown.2 ⟨.bra, 5, hpoints⟩, hrange .bra 5 hpoints⟩

end Session

end LittleMan
