import LittleMan.Proofs.Session.Framing
import LittleMan.Proofs.Session.Grants

/-! The requests of a server and the answers to them. Requests are numbered in the order they are sent,
those that wait are those that no later answer names, and only their answers give a document settings. -/

namespace LittleMan

open Handler

namespace Turn

variable {t t' u : Turn}

/-- What is written in an act: no request, or one of the next number. -/
inductive Writes (t t' : Turn) : Prop
  | none (messages : List Json) (hout : t'.out = t.out ++ messages)
      (hno : ∀ m ∈ messages, requestNumber? m = none)
      (hlast : t'.server.lastRequest = t.server.lastRequest)
      (hpending : t'.server.pending = t.server.pending)
  | registration (hout : t'.out = t.out ++ [registration (t.server.lastRequest + 1)])
      (hlast : t'.server.lastRequest = t.server.lastRequest + 1)
      (hpending : t'.server.pending = t.server.pending)
  | settings (uri : Json) (hout : t'.out = t.out ++ [settingsRequest (t.server.lastRequest + 1) uri])
      (hlast : t'.server.lastRequest = t.server.lastRequest + 1)
      (hpending : t'.server.pending = t.server.pending ++ [(t.server.lastRequest + 1, uri)])

theorem writes_ask (uri : Json) (hout : u.out = t.out)
    (hlast : u.server.lastRequest = t.server.lastRequest)
    (hpending : u.server.pending = t.server.pending) : Writes t (u.ask uri) := by
  unfold ask
  split
  · exact .settings uri (by rw [hout, hlast]) (by rw [hlast]) (by rw [hpending, hlast])
  · exact .none [] (by rw [hout, List.append_nil]) (by simp) hlast hpending

theorem Act.writes (ha : Act t t') : Writes t t' := by
  cases ha with
  | tell messages lines h => exact .none messages rfl h rfl rfl
  | register => exact .registration rfl rfl rfl
  | opened doc => exact writes_ask doc.uri rfl rfl rfl
  | askAgain uri => exact writes_ask uri rfl rfl rfl
  | _ => exact .none [] (List.append_nil _).symm (by simp) rfl rfl

theorem requestNumbers_of_forall {messages : List Json}
    (h : ∀ m ∈ messages, requestNumber? m = none) : requestNumbers messages = [] :=
  List.filterMap_eq_nil_iff.2 h

/-- Requests are numbered from one on, in the order they are sent. -/
def Numbered (out : List Json) (last : Nat) : Prop :=
  requestNumbers out = (List.range' 1 last).map fun n : Nat => Json.int n

theorem Numbered.none {out messages : List Json} {last : Nat} (h : Numbered out last)
    (hno : ∀ m ∈ messages, requestNumber? m = none) : Numbered (out ++ messages) last := by
  rw [Numbered, requestNumbers_append, requestNumbers_of_forall hno, List.append_nil]
  exact h

theorem Numbered.next {out : List Json} {message : Json} {last : Nat} (h : Numbered out last)
    (hm : requestNumber? message = some (.int ((last + 1 : Nat) : Int))) :
    Numbered (out ++ [message]) (last + 1) := by
  have hone : requestNumbers [message] = [.int ((last + 1 : Nat) : Int)] := by
    simp [requestNumbers, hm]
  rw [Numbered, requestNumbers_append, hone, List.range'_1_concat, List.map_append, ← h,
    Nat.add_comm 1 last]
  rfl

theorem Act.numbered (ha : Act t t') {sent : List Json}
    (h : Numbered (sent ++ t.out) t.server.lastRequest) :
    Numbered (sent ++ t'.out) t'.server.lastRequest := by
  cases ha.writes with
  | none messages hout hno hlast =>
    rw [hout, hlast, ← List.append_assoc]
    exact h.none hno
  | registration hout hlast =>
    rw [hout, hlast, ← List.append_assoc]
    exact h.next rfl
  | settings uri hout hlast =>
    rw [hout, hlast, ← List.append_assoc]
    exact h.next rfl

theorem Acts.numbered (ha : Acts t t') {sent : List Json}
    (h : Numbered (sent ++ t.out) t.server.lastRequest) :
    Numbered (sent ++ t'.out) t'.server.lastRequest := by
  induction ha with
  | refl => exact h
  | tail _ hact ih => exact hact.numbered ih

/-- Requests for settings that are written are waited for. -/
def Waits (waiting : List (Nat × Json)) (t : Turn) : Prop :=
  ∀ n uri, (n, uri) ∈ t.server.pending ↔ (n, uri) ∈ waiting ∨ settingsRequest n uri ∈ t.out

theorem Act.waits (ha : Act t t') {waiting : List (Nat × Json)} (h : Waits waiting t) :
    Waits waiting t' := by
  intro n uri
  have hn := h n uri
  cases ha.writes with
  | none messages hout hno _ hpending =>
    rw [hpending, hout, List.mem_append, hn]
    simp only [settingsRequest_not_mem hno, or_false]
  | registration hout _ hpending =>
    have hne : settingsRequest n uri ≠ Turn.registration (t.server.lastRequest + 1) := by
      simp [settingsRequest, Turn.registration]
    rw [hpending, hout, List.mem_append, List.mem_singleton, hn]
    simp only [hne, or_false]
  | settings uri' hout _ hpending =>
    rw [hpending, hout, List.mem_append, List.mem_append, List.mem_singleton, List.mem_singleton, hn,
      Prod.mk.injEq, settingsRequest_inj, or_assoc]

theorem Acts.waits (ha : Acts t t') {waiting : List (Nat × Json)} (h : Waits waiting t) :
    Waits waiting t' := by
  induction ha with
  | refl => exact h
  | tail _ hact ih => exact hact.waits ih

end Turn

/-- The frame is an answer to the request of that number. -/
def Frame.Answers (frame : Frame) (n : Nat) : Prop :=
  ∃ id result, frame.answer? = some (id, result) ∧ Json.same (.int n) id = true

theorem Frame.answers_iff {frame : Frame} {id result : Json} (hf : frame.answer? = some (id, result))
    (n : Nat) : frame.Answers n ↔ Json.same (.int n) id = true := by
  constructor
  · rintro ⟨id', result', hf', hn⟩
    rw [hf] at hf'
    obtain ⟨rfl, -⟩ := Prod.mk.inj (Option.some.inj hf')
    exact hn
  · exact fun hn => ⟨id, result, hf, hn⟩

theorem Frame.not_answers {frame : Frame} (hf : frame.answer? = none) (n : Nat) :
    ¬ frame.Answers n := by
  rintro ⟨id, result, hf', -⟩
  rw [hf] at hf'
  cases hf'

namespace Session

open Turn

/-- The client was asked for the settings of a document in a request of that number, and has not answered
it since. -/
def Awaits (h : List (Frame × Turn)) (n : Nat) (uri : Json) : Prop :=
  ∃ before p after, h = before ++ p :: after ∧ settingsRequest n uri ∈ p.2.out ∧
    ∀ q ∈ after, ¬ q.1.Answers n

variable {h : List (Frame × Turn)} {p : Frame × Turn} {server : Server} {out : List Json}

theorem awaits_concat {n : Nat} {uri : Json} : Awaits (h ++ [p]) n uri ↔
    settingsRequest n uri ∈ p.2.out ∨ Awaits h n uri ∧ ¬ p.1.Answers n := by
  constructor
  · rintro ⟨before, q, after, heq, hsent, hno⟩
    rcases List.eq_nil_or_concat' after with rfl | ⟨after, x, rfl⟩
    · obtain ⟨-, hq⟩ := List.append_inj' heq rfl
      obtain rfl := List.singleton_inj.1 hq
      exact Or.inl hsent
    · rw [← List.cons_append, ← List.append_assoc] at heq
      obtain ⟨rfl, hx⟩ := List.append_inj' heq rfl
      obtain rfl := List.singleton_inj.1 hx
      refine Or.inr ⟨⟨before, q, after, rfl, hsent, fun y hy => hno y ?_⟩, hno p ?_⟩
      · exact List.mem_append_left _ hy
      · exact List.mem_append_right _ List.mem_cons_self
  · rintro (hsent | ⟨⟨before, q, after, rfl, hsent, hno⟩, hp⟩)
    · exact ⟨h, p, [], rfl, hsent, by simp⟩
    · refine ⟨before, q, after ++ [p], by simp, hsent, fun y hy => ?_⟩
      rcases List.mem_append.1 hy with hy | hy
      · exact hno y hy
      · obtain rfl := List.mem_singleton.1 hy
        exact hp

/-- The books of a server agree with what was sent and received. -/
structure Booked (h : List (Frame × Turn)) (server : Server) (out : List Json) : Prop where
  consistent : server.Consistent
  written : out = h.flatMap (·.2.out)
  numbered : Numbered out server.lastRequest
  due : ∀ n uri, (n, uri) ∈ server.pending ↔ Awaits h n uri

theorem mem_struck_iff {before after : List (Nat × Json)} {e q : Nat × Json}
    (hincreasing : (before ++ e :: after).Pairwise fun a b => a.1 < b.1) :
    q ∈ before ++ after ↔ q ∈ before ++ e :: after ∧ q.1 ≠ e.1 := by
  obtain ⟨-, hright, hbefore⟩ := List.pairwise_append.1 hincreasing
  have hafter := (List.pairwise_cons.1 hright).1
  simp only [List.mem_append, List.mem_cons]
  constructor
  · rintro (hq | hq)
    · exact ⟨Or.inl hq, Nat.ne_of_lt (hbefore q hq e List.mem_cons_self)⟩
    · exact ⟨Or.inr (Or.inr hq), Nat.ne_of_gt (hafter q hq)⟩
  · rintro ⟨hq | rfl | hq, hne⟩
    · exact Or.inl hq
    · exact absurd rfl hne
    · exact Or.inr hq

theorem not_awaits_nil (n : Nat) (uri : Json) : ¬ Awaits [] n uri := by
  rintro ⟨before, p, after, heq, -⟩
  simp at heq

theorem Outcome.numbered {frame : Frame} {t : Turn} (ho : Outcome server frame t)
    (hn : Numbered out server.lastRequest) : Numbered (out ++ t.out) t.server.lastRequest := by
  have hstart : Numbered (out ++ []) server.lastRequest := by
    rw [List.append_nil]
    exact hn
  cases ho with
  | acts _ u hacts hserver hout =>
    rw [hserver, hout]
    exact Acts.numbered hacts hstart
  | ignored _ _ _ _ hserver hout =>
    rw [hserver, hout]
    exact hstart
  | settled _ result before after _ uri _ _ _ hserver hno =>
    have hlast : (Session.settled server (before ++ after) uri result).lastRequest = server.lastRequest := by
      unfold Session.settled
      split <;> rfl
    rw [hserver, hlast]
    exact hn.none hno

/-- What waits after a turn waited before or is asked for now, and has not been answered now. -/
theorem Outcome.mem_pending_iff {frame : Frame} {t : Turn} (ho : Outcome server frame t)
    (hs : server.Consistent) (n : Nat) (uri : Json) : (n, uri) ∈ t.server.pending ↔
      settingsRequest n uri ∈ t.out ∨ (n, uri) ∈ server.pending ∧ ¬ frame.Answers n := by
  cases ho with
  | acts hf u hacts hserver hout =>
    have hwaits : Waits server.pending { server } := fun n uri => by simp
    rw [hserver, hout, Acts.waits hacts hwaits n uri]
    simp only [Frame.not_answers hf n, not_false_eq_true, and_true, or_comm]
  | ignored id result hf hno hserver hout =>
    rw [hserver, hout, Frame.answers_iff hf]
    constructor
    · exact fun hmem => Or.inr ⟨hmem, by simpa using hno _ hmem⟩
    · rintro (hmem | ⟨hmem, -⟩)
      · cases hmem
      · exact hmem
  | settled id result before after m v hf hp hm hserver hno =>
    have hincreasing := hs.increasing
    have hpending : (Session.settled server (before ++ after) v result).pending = before ++ after := rfl
    have hanswers : Json.same (.int n) id = true ↔ n = m :=
      ⟨fun hn => Json.same_number_inj hn hm, fun hn => hn ▸ hm⟩
    rw [hp] at hincreasing
    rw [hserver, hpending, Frame.answers_iff hf, hp, mem_struck_iff hincreasing, hanswers]
    simp only [settingsRequest_not_mem hno, false_or]

theorem Booked.step {frame : Frame} {t : Turn} (hb : Booked h server out)
    (ho : Outcome server frame t) : Booked (h ++ [(frame, t)]) t.server (out ++ t.out) where
  consistent := ho.consistent hb.consistent
  written := by simp [hb.written]
  numbered := ho.numbered hb.numbered
  due n uri := by rw [awaits_concat, ← hb.due, ho.mem_pending_iff hb.consistent]

theorem kept_booked : Kept Booked where
  start :=
    ⟨Server.consistent_empty, rfl, rfl, fun n uri => by simp [not_awaits_nil]⟩
  step files _ _ _ frame _ halike hb :=
    hb.step ((outcome_turn files hb.consistent frame).alike halike)

/-- The requests of a server so far, and what the next turn makes of an answer. -/
structure Accounted (h : List (Frame × Turn)) (server : Server) (out : List Json) : Prop where
  numbered : requestNumbers out = (List.range' 1 server.lastRequest).map fun n : Nat => Json.int n
  due : ∀ n uri, (n, uri) ∈ server.pending ↔ Awaits h n uri
  increasing : server.pending.Pairwise fun a b => a.1 < b.1
  ignored : ∀ (files : FileReader) (frame : Frame) (id result : Json),
    frame.answer? = some (id, result) → id.isScalar = true →
    (∀ p ∈ server.pending, Json.same (.int p.1) id = false) →
    turn files server frame = { server }
  settled : ∀ (files : FileReader) (frame : Frame) (id result : Json) (n : Nat) (uri : Json),
    frame.answer? = some (id, result) → (n, uri) ∈ server.pending →
    Json.same (.int n) id = true →
    ∃ before after documents, server.pending = before ++ (n, uri) :: after ∧
      (turn files server frame).server = { server with pending := before ++ after, documents } ∧
      (documents = server.documents ∨
        ∃ front doc back, server.documents = front ++ doc :: back ∧ doc.uri.same uri = true ∧
          documents = front ++ { doc with settings := some (answeredSettings result) } :: back)
  granted : ∀ (files : FileReader) (frame : Frame) (doc : Document) (settings : Settings),
    doc ∈ (turn files server frame).server.documents → doc.settings = some settings →
    (∃ d ∈ server.documents, d.uri = doc.uri ∧ d.settings = some settings) ∨
      ∃ n uri id result, frame.answer? = some (id, result) ∧ (n, uri) ∈ server.pending ∧
        Json.same (.int n) id = true ∧ doc.uri.same uri = true ∧
        settings = answeredSettings result

theorem Booked.accounted (hb : Booked h server out) : Accounted h server out where
  numbered := hb.numbered
  due := hb.due
  increasing := hb.consistent.increasing
  ignored files _ _ _ hf hid hno := (turn_of_unawaited files hf hno).2.2 hid
  settled files frame id result n uri hf hmem hn := by
    obtain ⟨before, after, hp⟩ := List.append_of_mem hmem
    have hserver := (turn_of_awaited files hb.consistent hf hp hn).1
    refine ⟨before, after, (settled server (before ++ after) uri result).documents, hp, ?_,
      settled_documents hb.consistent⟩
    rw [hserver]
    unfold Session.settled
    split <;> rfl
  granted files frame _ _ hd hv := (outcome_turn files hb.consistent frame).settings hb.consistent hd hv

/-- The books are right after each turn of a session. -/
theorem accounted_of_transcript (files : List Text → FileReader) {bytes : List UInt8}
    {ts : List Turn} (hts : ts <+: transcript files bytes) :
    Accounted (history bytes ts) (merge ts).server (merge ts).out :=
  (kept_booked.of_transcript files hts).accounted

/-- A client that is asked for the settings of its document twice, and whose answers overtake each
other. -/
def overtakenMessages : List (List (Text × Json)) :=
  [[("jsonrpc", .str "2.0"), ("id", .int 1), ("method", .str "initialize"),
      ("params", .obj [("capabilities", .obj
        [("workspace", .obj [("configuration", .bool true)])])])],
    [("jsonrpc", .str "2.0"), ("method", .str "textDocument/didOpen"),
      ("params", .obj [("textDocument", .obj [("uri", .str "a"), ("text", .str "")])])],
    [("jsonrpc", .str "2.0"), ("method", .str "workspace/didChangeConfiguration")],
    [("jsonrpc", .str "2.0"), ("id", .int 2),
      ("result", .arr [.obj [("maxNumberOfProblems", .int 7)]])],
    [("jsonrpc", .str "2.0"), ("id", .int 1),
      ("result", .arr [.obj [("maxNumberOfProblems", .int 5)]])]]

def overtaken : List UInt8 := overtakenMessages.flatMap fun fields => Frame.encode (.obj fields)

def overtakenTurns : List Turn := transcript (fun _ _ => .error .fileNotFound) overtaken

theorem frames_overtaken : Frame.all overtaken = overtakenMessages.map .message := by
  have hbytes : overtaken = (overtakenMessages.map .obj).flatMap Frame.encode := by
    rw [overtaken, List.flatMap_map]
  rw [hbytes]
  exact Frame.all_flatMap_encode (by decide +kernel)

theorem overtakenTurns_eq : overtakenTurns =
    greet (run (fun _ _ => .error .fileNotFound) {} [greeting] (overtakenMessages.map .message)) := by
  rw [overtakenTurns, transcript_eq, frames_overtaken]

theorem accounted_overtakenTurns : (merge overtakenTurns).server.lastRequest = 2 ∧
    Accounted (history overtaken overtakenTurns) (merge overtakenTurns).server
      (merge overtakenTurns).out := by
  refine ⟨?_, accounted_of_transcript _ (List.prefix_refl overtakenTurns)⟩
  rw [overtakenTurns_eq]
  decide +kernel

end Session

end LittleMan
