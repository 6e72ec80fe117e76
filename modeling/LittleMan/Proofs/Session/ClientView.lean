import LittleMan.Proofs.Session.History
import LittleMan.Proofs.Session.Upkeep

/-! What a client sees in a session, after each of its turns. Its view of a document follows from the
messages up to then: the last diagnostics published are those of the current text and limit, and are
what a request would be answered with. -/

namespace LittleMan

open Handler

/-- What a frame says of documents is told in strings. -/
def Frame.tellsTexts : Frame → Bool
  | .message fields =>
    match (Json.lookup "method" fields).bind Json.string? with
    | some method => Session.tellsTexts method ((Json.lookup "params" fields).getD .null)
    | none => true
  | _ => true

namespace Session

variable {shown : List (Json × Json)} {t : Turn}

theorem tellsTexts_params {method : String} {params : Json}
    (h : tellsTexts method params = true) :
    tellsTexts method (if params.isEmpty then .obj [] else params) = true := by
  split
  · unfold tellsTexts
    split <;> rfl
  · exact h

theorem recover_of_ok {m : Handler Unit} {next : Fault → Handler Unit} {sort : Fault → Bool} {u : Turn}
    (h : m t = (.ok (), u)) : Handler.recover m sort next t = (.ok (), u) := by
  rw [Handler.recover, h]

theorem receive_of_method (files : FileReader) (fields : List (Text × Json)) {name : String}
    (hm : Json.lookup "method" fields = some (.str name)) (hi : t.server.initialized = true) :
    receive files fields t =
      Handler.recover
        (handle files name ((Json.lookup "id" fields).getD .null)
          (if ((Json.lookup "params" fields).getD .null).isEmpty then .obj []
            else (Json.lookup "params" fields).getD .null))
        isInvalidParams (refuseParams (.str name) ((Json.lookup "id" fields).getD .null)) t := by
  have hname : (Json.str name).string? = some name := Json.string?_eq_some_iff.2 rfl
  simp only [receive, hm, Option.getD_some, reduceCtorEq, if_false, bind_apply, Handler.server, hi,
    if_true, hname]

theorem keeps_receive (files : FileReader) {fields : List (Text × Json)}
    (h : (Frame.message fields).tellsTexts = true) : Keeps shown (receive files fields) t := by
  unfold receive
  simp only
  split
  · exact keeps_didAnswer _ _
  · refine Keeps.server ?_
    split
    · next hi =>
      refine Keeps.recover ?_ fun e => Silent.of_replies (replies_refuseParams _ _ e)
      split
      · next name hname =>
        have hm := Json.string?_eq_some_iff.1 hname
        have hmethod : (Json.lookup "method" fields).bind Json.string? = some name := by
          cases hl : Json.lookup "method" fields with
          | none =>
            rw [hl] at hm
            cases hm
          | some method =>
            rw [hl, Option.getD_some] at hname
            exact hname
        simp only [Frame.tellsTexts, hmethod] at h
        exact keeps_handle files hi (tellsTexts_params h)
      · exact Keeps.of_silent (Silent.of_replies (replies_unknown _ _))
    · exact Keeps.of_silent (silent_await _ _ _)

theorem publications_nil : publications [] = [] := rfl

theorem mirrors_turn (files : FileReader) {server : Server} {frame : Frame}
    (hm : Mirrors server shown) (htext : frame.tellsTexts = true)
    (hf : (turn files server frame).fault = none) :
    Mirrors (turn files server frame).server
      (shown ++ publications (turn files server frame).out) := by
  have hquiet : Mirrors server (shown ++ publications []) := by
    rw [publications_nil, List.append_nil]
    exact hm
  cases frame with
  | message fields =>
    have hk : Keeps shown (receive files fields) { server } := keeps_receive files htext
    have hk := hk hquiet
    rw [turn] at hf ⊢
    generalize receive files fields { server } = r at hf hk
    obtain ⟨_ | _, u⟩ := r
    · cases hf
    · exact hk (by simp)
  | _ => exact hquiet

theorem publications_append (out out' : List Json) :
    publications (out ++ out') = publications out ++ publications out' := by
  simp [publications]

theorem mirrors_transcript (files : List Text → FileReader) {bytes : List UInt8} {ts : List Turn}
    (hts : ts <+: transcript files bytes) (hf : ∀ t ∈ ts, t.fault = none)
    (htext : ∀ frame ∈ (Frame.all bytes).take ts.length, frame.tellsTexts = true) :
    Mirrors (merge ts).server (publications (merge ts).out) := by
  have hkept : Kept fun h server out =>
      (∀ p ∈ h, p.2.fault = none ∧ p.1.tellsTexts = true) → Mirrors server (publications out) := by
    refine ⟨fun _ => mirrors_nil, fun files h server out frame t halike hm hp => ?_⟩
    have hbefore := hm fun p hmem => hp p (List.mem_append_left _ hmem)
    obtain ⟨hfault, htold⟩ := hp (frame, t) (List.mem_append_right _ List.mem_cons_self)
    rw [halike.fault] at hfault
    rw [publications_append, halike.server, halike.out]
    exact mirrors_turn files hbefore htold hfault
  refine hkept.of_transcript files hts fun p hp => ?_
  obtain ⟨hframe, hturn⟩ := mem_take_of_mem_history hp
  exact ⟨hf p.2 hturn, htext p.1 hframe⟩

def diagnosticRequest (id uri : Json) : Frame :=
  .message [("jsonrpc", .str "2.0"), ("id", id), ("method", .str "textDocument/diagnostic"),
    ("params", .obj [("textDocument", .obj [("uri", uri)])])]

theorem out_diagnosticRequest (files : FileReader) (id : Json) {server : Server} {uri : Json}
    {doc : Document} {items : List Json} (hi : server.initialized = true)
    (hfind : server.find? uri = .ok (some doc)) (hitems : doc.items server.settings = .ok items) :
    (turn files server (diagnosticRequest id uri)).out =
      [.obj [("jsonrpc", .str "2.0"), ("id", id),
        ("result", .obj [("kind", .str "full"), ("items", .arr items)])]] := by
  have hanswer : diagnostic files id uri { server } =
      (.ok (), { server, out := [.obj [("jsonrpc", .str "2.0"), ("id", id),
        ("result", .obj [("kind", .str "full"), ("items", .arr items)])]] }) := by
    simp only [diagnostic, bind_apply, liftM_apply, Handler.server, hfind, hitems]
    rfl
  have hreceive := (receive_of_method files [("jsonrpc", .str "2.0"), ("id", id),
    ("method", .str "textDocument/diagnostic"),
    ("params", .obj [("textDocument", .obj [("uri", uri)])])] rfl hi).trans (recover_of_ok hanswer)
  rw [diagnosticRequest, turn, hreceive]

/-- The client's view of a document is up to date: an open one is shown as its text and its limit are
now, and as a request would be answered; of any other nothing wrong is shown. -/
structure UpToDate (server : Server) (out : List Json) (uri : Json) : Prop where
  opened : ∀ doc, server.find? uri = .ok (some doc) →
    ∃ (text : Text) (s : Source) (a : Analysis) (items : List Json), doc.text = .str text ∧
      s = { name := Document.name uri, text := text.toList } ∧ analyze s = .ok a ∧
      (a.diagnostics.take (doc.settings.getD server.settings).limit).mapM (·.toJson s) = .ok items ∧
      lastShown (publications out) uri = some (.arr items) ∧
      ∀ files id, (turn files server (diagnosticRequest id uri)).out =
        [.obj [("jsonrpc", .str "2.0"), ("id", id),
          ("result", .obj [("kind", .str "full"), ("items", .arr items)])]]
  other : (∀ doc, server.find? uri ≠ .ok (some doc)) → ∀ items,
    lastShown (publications out) uri = some items → items = .arr []

theorem upToDate_of_mirrors {server : Server} {out : List Json}
    (h : Mirrors server (publications out)) (uri : Json) : UpToDate server out uri := by
  constructor
  · intro doc hfind
    obtain ⟨hmem, rfl⟩ := h.find?_eq_some_iff.1 hfind
    obtain ⟨items, hitems, hshown⟩ := h.current doc hmem
    obtain ⟨text, htext⟩ := Document.isReadable_of_items hitems
    have hrequest := fun files id =>
      out_diagnosticRequest files id (h.started (List.ne_nil_of_mem hmem)) hfind hitems
    simp only [Document.items, Document.source?, htext, bind, Except.bind] at hitems
    cases ha : analyze { name := Document.name doc.uri, text := text.toList } with
    | error e => simp [ha] at hitems
    | ok a =>
      simp only [ha] at hitems
      exact ⟨text, _, a, items, htext, rfl, ha, hitems, hshown, hrequest⟩
  · intro hno items hshown
    refine h.cleared uri items (fun d hd hu => ?_) hshown
    exact hno d (h.find?_eq_some_iff.2 ⟨hd, hu⟩)

/-- After each turn of a session, and for each document, the client's view is up to date. -/
theorem upToDate_of_transcript (files : List Text → FileReader) {bytes : List UInt8}
    {ts : List Turn} (hts : ts <+: transcript files bytes) (hf : ∀ t ∈ ts, t.fault = none)
    (htext : ∀ frame ∈ (Frame.all bytes).take ts.length, frame.tellsTexts = true) (uri : Json) :
    UpToDate (merge ts).server (merge ts).out uri :=
  upToDate_of_mirrors (mirrors_transcript files hts hf htext) uri

def shortSession : List UInt8 :=
  [Json.obj [("jsonrpc", .str "2.0"), ("id", .int 1), ("method", .str "initialize")],
    .obj [("jsonrpc", .str "2.0"), ("method", .str "textDocument/didOpen"),
      ("params", .obj [("textDocument", .obj [("uri", .str "a"), ("text", .str "LDA X")])])]
    ].flatMap Frame.encode

def shortTurns : List Turn := transcript (fun _ _ => .error .fileNotFound) shortSession

theorem upToDate_shortTurns : (merge shortTurns).server.documents ≠ [] ∧
    UpToDate (merge shortTurns).server (merge shortTurns).out (.str "a") := by
  have hrun : (∀ t ∈ shortTurns, t.fault = none) ∧
      (∀ frame ∈ (Frame.all shortSession).take shortTurns.length, frame.tellsTexts = true) ∧
      (merge shortTurns).server.documents ≠ [] := by decide +kernel
  exact ⟨hrun.2.2, upToDate_of_transcript _ (List.prefix_refl shortTurns) hrun.1 hrun.2.1 (.str "a")⟩

end Session

end LittleMan
