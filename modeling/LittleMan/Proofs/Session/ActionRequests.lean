import LittleMan.Proofs.Session.Effects
import LittleMan.Proofs.Session.Refusals

/-! Requests for the actions on an open document that bring the diagnostics of its text back. They are
answered with the actions for one diagnostic after the other, as far as they are wanted. If one of these has
a place behind a surrogate on its own, there is no answer and the session ends. -/

namespace LittleMan

open Handler Json

namespace Session

/-- The message asks for the actions on a document. -/
structure AsksActions (fields : List (Text × Json)) (uri : Json) : Prop where
  method : lookup "method" fields = some (.str "textDocument/codeAction")
  uri : uriOf (messageParams fields) = .ok uri

/-- The context of a request holds these diagnostics. -/
def Brings (params : Json) (items : List Json) : Prop :=
  ∃ context, params.field "context" = .ok context ∧ context.field "diagnostics" = .ok (.arr items)

def resultReply (id result : Json) : Json :=
  .obj [("jsonrpc", .str "2.0"), ("id", id), ("result", result)]

def actionReply (id : Json) (s : Source) (actions : List Action) : Json :=
  resultReply id (.arr (actions.map (·.written s)))

/-- The turn that answers a request with these actions, or fails to. -/
def actionTurn (server : Server) (id : Json) (s : Source) (actions : List Action) : Turn :=
  if ∀ x ∈ actions, x.IsWritable s then { server, out := [actionReply id s actions] }
  else { server, fault := some .loneSurrogate }

variable {files : FileReader} {server : Server} {fields : List (Text × Json)}
variable {params uri : Json} {doc : Document} {s : Source} {a : Analysis}

theorem Brings.contextItems {items : List Json} (h : Brings params items) :
    contextItems params = .ok items := by
  obtain ⟨context, hcontext, hitems⟩ := h
  obtain ⟨fs, rfl⟩ := exists_of_isObject (isObject_of_field hcontext)
  obtain ⟨gs, rfl⟩ := exists_of_isObject (isObject_of_field hitems)
  have hlookup := field_eq_ok_iff.1 hcontext
  have hcontext' : (Json.obj fs).field? "context" = .ok (.obj gs) := by
    rw [Json.field?, hlookup]
    rfl
  rw [contextItems_of_obj hcontext', field_eq_ok_iff.1 hitems]

theorem mapM_toJson_of_analyze (ha : analyze s = .ok a) :
    a.diagnostics.mapM (·.toJson s) =
      if ∀ d ∈ a.diagnostics, IsEncodable d.token then .ok (a.diagnostics.map (·.written s))
      else .error .loneSurrogate :=
  mapM_eq_ite fun _ hd => Diagnostic.toJson_of_mem ha hd

theorem mapM_toJson_of_isEncodable (ha : analyze s = .ok a) (htext : IsEncodable s.text) :
    a.diagnostics.mapM (·.toJson s) = .ok (a.diagnostics.map (·.written s)) := by
  rw [mapM_toJson_of_analyze ha, if_pos]
  intro d hd
  obtain ⟨r, hr, w, habout⟩ := exists_isAbout ha hd
  exact habout.isEncodable_token hr htext

theorem eq_map_written {items : List Json} (ha : analyze s = .ok a)
    (h : a.diagnostics.mapM (·.toJson s) = .ok items) : items = a.diagnostics.map (·.written s) := by
  rw [mapM_toJson_of_analyze ha] at h
  split at h
  · exact (Except.ok.inj h).symm
  · cases h

theorem toJson_eq_written {items : List Json} {d : Diagnostic} (ha : analyze s = .ok a)
    (h : a.diagnostics.mapM (·.toJson s) = .ok items) (hd : d ∈ a.diagnostics) :
    d.toJson s = .ok (d.written s) := by
  rw [mapM_toJson_of_analyze ha] at h
  split at h
  · next hall => rw [Diagnostic.toJson_of_mem ha hd, if_pos (hall d hd)]
  · cases h

theorem returned_map_written {ds : List Diagnostic} (hds : ∀ d ∈ ds, d.Returnable s) :
    returned s (ds.map (·.written s)) = .ok ds := by
  induction ds with
  | nil => rfl
  | cons d ds ih =>
    have hd := (hds d List.mem_cons_self).ofJson?_written
    have hrest := ih fun d hd => hds d (List.mem_cons_of_mem _ hd)
    rw [List.map_cons, returned, hd, hrest]
    rfl

theorem isOwn_of_mem {d : Diagnostic} (ha : analyze s = .ok a) (hd : d ∈ a.diagnostics) :
    QuickFix.isOwn d = true := by
  obtain ⟨r, -, w, habout⟩ := exists_isAbout ha hd
  rw [QuickFix.isOwn, habout.source]
  rfl

theorem handle_codeAction (files : FileReader) (hask : AsksActions fields uri)
    (hfind : server.find? uri = .ok (some doc)) :
    handle files "textDocument/codeAction" (messageId fields) (messageParams fields) { server } =
      answerActions (messageId fields) (messageParams fields) uri (some doc) { server } := by
  show codeAction (messageId fields) (messageParams fields) { server } = _
  rw [codeAction_apply]
  simp only [bind_apply, liftM_apply, hask.uri, Handler.server, hfind]

theorem turn_of_codeActions (files : FileReader) {actions : List Action}
    (hi : server.initialized = true) (hask : AsksActions fields uri)
    (hfind : server.find? uri = .ok (some doc))
    (hs : ({ doc with uri } : Document).source? = .ok s)
    (hactions : codeActions s (messageParams fields) = .ok actions) :
    turn files server (.message fields) = actionTurn server (messageId fields) s actions := by
  have hitems := actionItems_of_codeActions hactions
  rw [turn_of_method files hi hask.method, handle_codeAction files hask hfind, actionTurn]
  by_cases hw : ∀ x ∈ actions, x.IsWritable s
  · rw [if_pos hw] at hitems
    simp only [answerActions, bind_apply, liftM_apply, hs, hitems, if_pos hw]
    rfl
  · rw [if_neg hw] at hitems
    simp only [answerActions, bind_apply, liftM_apply, hs, hitems, if_neg hw]
    rfl

theorem codeActions_of_brings (ha : analyze s = .ok a) (hblank : s.isBlank = false) {items : List Json}
    (hitems : a.diagnostics.mapM (·.toJson s) = .ok items) (hbrings : Brings params items)
    {range : Option (Point × Point)} (hrange : requestedRange s params = .ok range) :
    codeActions s params = QuickFix.allActions s s.records (LabelTable.ofRecords s.records)
      (a.diagnostics.filter fun d => range.all d.span.touchesRange) := by
  have hreturned := returned_map_written fun d (hd : d ∈ a.diagnostics) =>
    Diagnostic.returnable_of_mem ha hd
  rw [← eq_map_written ha hitems] at hreturned
  simp only [codeActions, hbrings.contextItems, bind, Except.bind, hreturned, hrange]
  exact proposeActions_of_isOwn none _ hblank fun d hd => isOwn_of_mem ha hd

/-- The server answers with the actions for those of the diagnostics that touch the range. All of these can
be sent if the text has an encoding. -/
theorem exists_actions_of_brings (files : FileReader) (hi : server.initialized = true)
    (hask : AsksActions fields uri) (hfind : server.find? uri = .ok (some doc))
    (hs : ({ doc with uri } : Document).source? = .ok s) (hblank : s.isBlank = false)
    (ha : analyze s = .ok a) {items : List Json}
    (hitems : a.diagnostics.mapM (·.toJson s) = .ok items)
    (hbrings : Brings (messageParams fields) items)
    {range : Option (Point × Point)}
    (hrange : requestedRange s (messageParams fields) = .ok range) :
    ∃ found, List.Forall₂ (fun d here => proposeActions s none [d] (fun _ => true) = .ok here)
        (a.diagnostics.filter fun d => range.all d.span.touchesRange) found ∧
      turn files server (.message fields) =
        actionTurn server (messageId fields) s found.flatten ∧
      (IsEncodable s.text → ∀ x ∈ found.flatten, x.IsWritable s) := by
  have hcode := codeActions_of_brings ha hblank hitems hbrings hrange
  have hall : ∀ d ∈ a.diagnostics.filter fun d => range.all d.span.touchesRange,
      ∃ as, QuickFix.actions s s.records (LabelTable.ofRecords s.records) d = .ok as ∧
        ∀ x ∈ as, x.IsFor s a.diagnostics :=
    fun d hd => exists_actions _ ha (List.mem_filter.1 hd).1
  obtain ⟨actions, hactions, hfor⟩ := exists_allActions hall
  rw [hactions] at hcode
  obtain ⟨found, hfound, rfl⟩ := QuickFix.allActions_eq_ok_iff.1 hactions
  refine ⟨found, ?_, turn_of_codeActions files hi hask hfind hs hcode,
    fun htext x hx => (hfor x hx).isWritable ha htext⟩
  refine List.forall₂_iff_zip.2 ⟨hfound.length_eq, fun {d here} hmem => ?_⟩
  have hd := (List.mem_filter.1 (List.of_mem_zip hmem).1).1
  rw [proposeActions_singleton_of_isOwn none hblank (isOwn_of_mem ha hd)]
  exact (List.forall₂_iff_zip.1 hfound).2 hmem

/-- A request for the actions on a document, with diagnostics and other parameters. -/
def actionRequest (uri : Json) (items : List Json) (more : List (Text × Json)) :
    List (Text × Json) :=
  [("jsonrpc", .str "2.0"), ("id", .int 1), ("method", .str "textDocument/codeAction"),
    ("params", .obj (("textDocument", .obj [("uri", uri)]) ::
      ("context", .obj [("diagnostics", .arr items)]) :: more))]

theorem asksActions_actionRequest (uri : Json) (items : List Json) (more : List (Text × Json)) :
    AsksActions (actionRequest uri items more) uri := ⟨rfl, rfl⟩

theorem brings_actionRequest (uri : Json) (items : List Json) (more : List (Text × Json)) :
    Brings (messageParams (actionRequest uri items more)) items := ⟨_, rfl, rfl⟩

/-- A server with the one document open. -/
def serverWith (doc : Document) : Server := { initialized := true, documents := [doc] }

end Session

end LittleMan
