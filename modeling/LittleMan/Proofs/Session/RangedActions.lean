import LittleMan.Proofs.Protocol.ClientEdit
import LittleMan.Proofs.Session.ActionRequests

/-! The range of a request for actions. The server compares columns in characters, and reads those of the
client so that a column inside a character becomes the next one. As all that stands before a diagnostic
is ASCII, it finds the diagnostics whose published ranges touch the one that the client sent. An answer is
sent unless a surrogate on its own keeps one of the actions from being written. -/

namespace LittleMan

open Handler Json

namespace Client

def position? (v : Json) : Option Position :=
  match field? "line" v, field? "character" v with
  | some (.int line), some (.int character) => some ⟨line, character⟩
  | _, _ => none

/-- The range of a value from its first to its last position, with columns in code units. -/
def range? (v : Json) : Option (Position × Position) := do
  let range ← field? "range" v
  let start ← position? (← field? "start" range)
  let stop ← position? (← field? "end" range)
  return (start, stop)

/-- Whether the range of a value touches another one, both ends included. -/
def touches (range : Position × Position) (v : Json) : Bool :=
  (range? v).any fun own => own.1 ≤ range.2 && range.1 ≤ own.2

theorem field_of_field? {key : Text} {v w : Json} (h : field? key v = some w) :
    v.field key = .ok w := by
  cases v with
  | obj fields => exact Session.field_eq_ok_iff.2 h
  | _ => cases h

theorem exists_of_position? {v : Json} {p : Position} (h : position? v = some p) :
    field? "line" v = some (.int p.line) ∧ field? "character" v = some (.int p.col) := by
  unfold position? at h
  split at h
  · next hl hc =>
    obtain rfl := Option.some.inj h
    exact ⟨hl, hc⟩
  · cases h

theorem exists_of_range? {v : Json} {start stop : Position} (h : range? v = some (start, stop)) :
    ∃ range first last, field? "range" v = some range ∧ field? "start" range = some first ∧
      field? "end" range = some last ∧ position? first = some start ∧
      position? last = some stop := by
  simp only [range?, Option.bind_eq_bind, Option.bind_eq_some_iff, Option.pure_def,
    Option.some.injEq, Prod.mk.injEq] at h
  obtain ⟨range, hrange, first, hfirst, _, hstart, last, hlast, _, hstop, rfl, rfl⟩ := h
  exact ⟨range, first, last, hrange, hfirst, hlast, hstart, hstop⟩

end Client

/-- The place in characters that a position in code units is read as. -/
def Point.ofUnits (s : Source) (p : Position) : Point :=
  { line := .whole p.line, col := .whole (LittleMan.ofUnits (s.columnText p.line) p.col) }

section

variable {s : Source} {v : Json} {p : Position} {k a b : Nat}

theorem Point.ofJson_of_position? (h : Client.position? v = some p) :
    Point.ofJson s v = .ok (Point.ofUnits s p) := by
  obtain ⟨hl, hc⟩ := Client.exists_of_position? h
  simp only [Point.ofJson, Client.field_of_field? hl, Client.field_of_field? hc, Json.number,
    Json.number?, Point.textOfLine, bind, Except.bind]
  rfl

theorem requestedRange_of_range? {start stop : Position}
    (h : Client.range? v = some (start, stop)) :
    Session.requestedRange s v = .ok (some (Point.ofUnits s start, Point.ofUnits s stop)) := by
  obtain ⟨range, first, last, hrange, hfirst, hlast, hstart, hstop⟩ := Client.exists_of_range? h
  cases v with
  | obj fields =>
    have hlookup : lookup "range" fields = some range := hrange
    simp only [Session.requestedRange, hlookup, Point.rangeOfJson, Client.field_of_field? hfirst,
      Client.field_of_field? hlast, Point.ofJson_of_position? hstart,
      Point.ofJson_of_position? hstop, bind, Except.bind]
    rfl
  | _ => cases hrange

theorem Point.le_iff {p q : Position} :
    (Point.ofPosition p).le (Point.ofPosition q) = true ↔ p ≤ q := by
  simp only [Point.le, Point.ofPosition, Bool.or_eq_true, Bool.and_eq_true, Number.lt_whole,
    Number.same_whole, Number.le_whole]
  rfl

theorem le_ofUnits_iff_le {q : Position} (hq : 0 ≤ q.col)
    (hascii : ∀ c ∈ (s.columnText k).take a, c.toNat < 128) :
    (Point.ofPosition ⟨k, a⟩).le (Point.ofUnits s q) = true ↔
      (⟨k, unitColumn (s.columnText k) a⟩ : Position) ≤ q := by
  have hwidth : ∀ c ∈ (s.columnText k).take a, unitWidth c = 1 :=
    fun c hc => unitWidth_of_ascii (hascii c hc)
  obtain ⟨line, units⟩ := q
  refine (Point.le_iff (q := ⟨line, ofUnits (s.columnText line) units⟩)).trans ?_
  refine or_congr_right (and_congr_right fun hline => ?_)
  obtain rfl : (k : Int) = line := hline
  exact le_ofUnits_iff hq hwidth

theorem ofUnits_le_iff_le :
    (Point.ofUnits s p).le (Point.ofPosition ⟨k, b⟩) = true ↔
      p ≤ (⟨k, unitColumn (s.columnText k) b⟩ : Position) := by
  obtain ⟨line, units⟩ := p
  refine (Point.le_iff (p := ⟨line, ofUnits (s.columnText line) units⟩)).trans ?_
  refine or_congr_right (and_congr_right fun hline => ?_)
  obtain rfl : line = (k : Int) := hline
  exact ofUnits_le_iff

end

namespace Diagnostic.IsAbout

variable {s : Source} {d : Diagnostic} {r : Record} {w : Word}

theorem range?_written (h : d.IsAbout r w) :
    Client.range? (d.written s) =
      some (⟨r.line, unitColumn (s.columnText r.line) w.col⟩,
        ⟨r.line, unitColumn (s.columnText r.line) (w.col + w.text.length : Nat)⟩) := by
  have hstart : d.span.start = ⟨r.line, w.col⟩ := by
    rw [h.span]
    rfl
  have hstop : d.span.stop = ⟨r.line, (w.col + w.text.length : Nat)⟩ := by
    rw [h.span, Span.stop, Span.stopCol, Word.span, Int.natCast_add]
  simp [Client.range?, Client.position?, Client.field?, Diagnostic.written, Diagnostic.object, rangeWritten,
    rangeObject, Position.written, positionObject, lineJson, h.lineAsTruth, lookup, hstart, hstop]

theorem touchesRange_eq (h : d.IsAbout r w) (hr : r ∈ s.records) {start stop : Position}
    (hcol : 0 ≤ stop.col) :
    d.span.touchesRange (Point.ofUnits s start, Point.ofUnits s stop) =
      Client.touches (start, stop) (d.written s) := by
  obtain ⟨line, hline, hw⟩ := exists_line_followsAscii hr (mem_words_of_subject? h.subject)
  obtain ⟨-, -, hstart, hstop⟩ := h.exists_stand hr
  have htext : s.columnText r.line = line := by
    simp [Source.columnText, hline]
  have hascii : ∀ c ∈ (s.columnText r.line).take w.col, c.toNat < 128 := htext ▸ hw.of_mem_take
  rw [Bool.eq_iff_iff, Span.touchesRange, Client.touches, h.range?_written, hstart, hstop,
    Option.any_some, Bool.and_eq_true, Bool.and_eq_true, decide_eq_true_eq, decide_eq_true_eq,
    le_ofUnits_iff_le hcol hascii, ofUnits_le_iff_le]

end Diagnostic.IsAbout

namespace Session

variable {server : Server} {fields : List (Text × Json)} {uri : Json} {doc : Document}
variable {s : Source} {a : Analysis}

/-- A request with a range is answered with the actions for the diagnostics that touch the range as the
client sees both, if all of these actions can be sent. They can if the text has an encoding. -/
theorem turn_of_ranged_request (files : FileReader) (hi : server.initialized = true)
    (hask : AsksActions fields uri) (hfind : server.find? uri = .ok (some doc))
    (hs : ({ doc with uri } : Document).source? = .ok s) (hblank : s.isBlank = false)
    (ha : analyze s = .ok a) {items : List Json}
    (hitems : a.diagnostics.mapM (·.toJson s) = .ok items)
    (hbrings : Brings (messageParams fields) items)
    {start stop : Position} (hrange : Client.range? (messageParams fields) = some (start, stop))
    (hcol : 0 ≤ stop.col) :
    (∀ d ∈ a.diagnostics, d.toJson s = .ok (d.written s) ∧ ∃ line first last,
      Client.range? (d.written s) = some (⟨line, first⟩, ⟨line, last⟩)) ∧
    ∃ found, List.Forall₂ (fun d here => proposeActions s none [d] (fun _ => true) = .ok here)
        (a.diagnostics.filter fun d => Client.touches (start, stop) (d.written s)) found ∧
      turn files server (.message fields) =
        actionTurn server (messageId fields) s found.flatten ∧
      (IsEncodable s.text → ∀ x ∈ found.flatten, x.IsWritable s) := by
  have hagree : ∀ d ∈ a.diagnostics,
      d.span.touchesRange (Point.ofUnits s start, Point.ofUnits s stop) =
        Client.touches (start, stop) (d.written s) := by
    intro d hd
    obtain ⟨r, hr, w, habout⟩ := exists_isAbout ha hd
    exact habout.touchesRange_eq hr hcol
  constructor
  · intro d hd
    obtain ⟨r, -, w, habout⟩ := exists_isAbout ha hd
    exact ⟨toJson_eq_written ha hitems hd, _, _, _, habout.range?_written⟩
  · rw [← List.filter_congr hagree]
    exact exists_actions_of_brings files hi hask hfind hs hblank ha hitems hbrings
      (requestedRange_of_range? hrange)

def astralDocument : Document := { uri := .str "file:///a", text := .str "ADD #𝄞\r\nLDA FOO ;𝄞" }

def astralRange : Json :=
  .obj [("start", .obj [("line", .int 0), ("character", .int 6)]),
    ("end", .obj [("line", .int 1), ("character", .int 3)])]

theorem turn_of_ranged_request_astralProgram :
    ∃ a d d' items found, analyze astralProgram = .ok a ∧ a.diagnostics = [d, d'] ∧
      a.diagnostics.mapM (·.toJson astralProgram) = .ok items ∧
      List.Forall₂ (fun d here => proposeActions astralProgram none [d] (fun _ => true) = .ok here)
        [d] found ∧
      turn noFiles (serverWith astralDocument)
          (.message (actionRequest (.str "file:///a") items [("range", astralRange)])) =
        { server := serverWith astralDocument
          out := [actionReply (.int 1) astralProgram found.flatten] } := by
  obtain ⟨a, d, d', ha, hd, hfilter⟩ : ∃ a d d', analyze astralProgram = .ok a ∧
      a.diagnostics = [d, d'] ∧ (a.diagnostics.filter fun d =>
        Client.touches (⟨0, 6⟩, ⟨1, 3⟩) (d.written astralProgram)) = [d] := by
    refine ⟨_, _, _, rfl, rfl, ?_⟩
    decide +kernel
  have htext : IsEncodable astralProgram.text := by decide +kernel
  have hitems := mapM_toJson_of_isEncodable ha htext
  have hfind : (serverWith astralDocument).find? (.str "file:///a") =
      .ok (some astralDocument) := rfl
  have hrange : Client.range? (messageParams (actionRequest (.str "file:///a")
      (a.diagnostics.map (·.written astralProgram)) [("range", astralRange)])) =
      some (⟨0, 6⟩, ⟨1, 3⟩) := rfl
  obtain ⟨-, found, hfound, hturn, hsent⟩ := turn_of_ranged_request (s := astralProgram) noFiles rfl
    (asksActions_actionRequest _ _ _) hfind rfl rfl ha hitems (brings_actionRequest _ _ _) hrange
    (by decide)
  rw [hfilter] at hfound
  rw [actionTurn, if_pos (hsent htext)] at hturn
  exact ⟨a, d, d', _, found, ha, hd, hitems, hfound, hturn⟩

def halfDocument : Document :=
  { uri := .str "file:///a", text := .str (Text.ofList halfProgram.text) }

def labelRange : Json :=
  .obj [("start", .obj [("line", .int 1), ("character", .int 4)]),
    ("end", .obj [("line", .int 1), ("character", .int 4)])]

/-- Not every request for actions is answered, though the diagnostics that it brings were sent. -/
theorem not_exists_result : ¬ ∀ (server : Server) (fields : List (Text × Json)) (uri : Json)
    (doc : Document) (s : Source) (a : Analysis) (items : List Json) (start stop : Position),
    server.initialized = true → AsksActions fields uri → server.find? uri = .ok (some doc) →
    ({ doc with uri } : Document).source? = .ok s → s.isBlank = false → analyze s = .ok a →
    a.diagnostics.mapM (·.toJson s) = .ok items → Brings (messageParams fields) items →
    Client.range? (messageParams fields) = some (start, stop) → 0 ≤ stop.col →
      ∃ result, (turn noFiles server (.message fields)).out =
        [resultReply (messageId fields) result] := by
  intro h
  obtain ⟨a, items, ha, hitems⟩ : ∃ a items, analyze halfProgram = .ok a ∧
      a.diagnostics.mapM (·.toJson halfProgram) = .ok items := ⟨_, _, rfl, rfl⟩
  have hrun : ∀ items ∈ ((analyze halfProgram).bind fun a =>
      a.diagnostics.mapM (·.toJson halfProgram)).toOption,
      (turn noFiles (serverWith halfDocument) (.message (actionRequest (.str "file:///a") items
        [("range", labelRange)]))).out = [] := by
    decide +kernel
  rw [ha, Except.bind, hitems] at hrun
  obtain ⟨result, hresult⟩ := h (serverWith halfDocument) _ (.str "file:///a") halfDocument halfProgram a
    items ⟨1, 4⟩ ⟨1, 4⟩ rfl (asksActions_actionRequest _ _ [("range", labelRange)]) rfl rfl
    (by decide +kernel) ha hitems (brings_actionRequest _ _ _) rfl (by decide)
  rw [hrun items rfl] at hresult
  cases hresult

end Session

end LittleMan
