import Mathlib.Logic.Relation
import LittleMan.Proofs.Session.Upkeep

/-! What the server can do about a message that is not an answer. All handlers are runs of a few acts, and
whatever each act keeps is kept by all of them. -/

namespace LittleMan

open Handler

/-- The number of a message that is a request: an answer has no method, a notification no number. -/
def requestNumber? (message : Json) : Option Json :=
  match message with
  | .obj fields => if (Json.lookup "method" fields).isSome then Json.lookup "id" fields else none
  | _ => none

def requestNumbers (out : List Json) : List Json := out.filterMap requestNumber?

theorem requestNumbers_append (out out' : List Json) :
    requestNumbers (out ++ out') = requestNumbers out ++ requestNumbers out' :=
  List.filterMap_append

theorem requestNumber?_of_isReply {message : Json} (h : IsReply message) :
    requestNumber? message = none := by
  obtain ⟨fields, rfl, hm⟩ := h
  simp [requestNumber?, hm]

def settingsRequest (n : Nat) (uri : Json) : Json :=
  .obj [("jsonrpc", .str "2.0"), ("id", .int n), ("method", .str "workspace/configuration"),
    ("params", .obj [("items",
      .arr [.obj [("scopeUri", uri), ("section", .str Settings.settingsSection)]])])]

theorem requestNumber?_settingsRequest (n : Nat) (uri : Json) :
    requestNumber? (settingsRequest n uri) = some (.int n) := rfl

theorem mem_requestNumbers {out : List Json} {n : Nat} {uri : Json}
    (h : settingsRequest n uri ∈ out) : Json.int n ∈ requestNumbers out :=
  List.mem_filterMap.2 ⟨_, h, requestNumber?_settingsRequest n uri⟩

theorem settingsRequest_inj {m n : Nat} {uri uri' : Json} :
    settingsRequest m uri = settingsRequest n uri' ↔ m = n ∧ uri = uri' := by
  simp only [settingsRequest, Json.obj.injEq, List.cons.injEq, Prod.mk.injEq, Json.int.injEq,
    Int.natCast_inj, Json.arr.injEq, true_and, and_true]

theorem settingsRequest_not_mem {messages : List Json} (hno : ∀ m ∈ messages, requestNumber? m = none)
    (n : Nat) (uri : Json) : settingsRequest n uri ∉ messages := by
  intro hm
  have habs := hno _ hm
  rw [requestNumber?_settingsRequest] at habs
  cases habs

namespace Turn

def put (t : Turn) (doc : Document) : Turn :=
  { t with server := { t.server with documents := Server.putDocument doc t.server.documents } }

def forget (t : Turn) (uri : Json) : Turn :=
  { t with server := t.server.update uri fun d => { d with settings := none } }

/-- The turn after the client is asked for the settings of a document, if it can be asked. -/
def ask (t : Turn) (uri : Json) : Turn :=
  if t.server.asksSettings then
    { t with
      server :=
        { t.server with
          lastRequest := t.server.lastRequest + 1
          pending := t.server.pending ++ [(t.server.lastRequest + 1, uri)] }
      out := t.out ++ [settingsRequest (t.server.lastRequest + 1) uri] }
  else t

def registration (n : Nat) : Json :=
  .obj [("jsonrpc", .str "2.0"), ("id", .int n), ("method", .str "client/registerCapability"),
    ("params", .obj [("registrations", .arr [.obj
      [("id", .str "lmc-configuration"), ("method", .str "workspace/didChangeConfiguration")]])])]

/-- One thing that the server does. -/
inductive Act (t : Turn) : Turn → Prop
  | tell (messages : List Json) (lines : List Text)
      (h : ∀ m ∈ messages, requestNumber? m = none) :
      Act t { t with out := t.out ++ messages, log := t.log ++ lines }
  | start (asksSettings hasFolders : Bool) (h : t.server.initialized = false) :
      Act t { t with server := { t.server with asksSettings, hasFolders, initialized := true } }
  | register :
      Act t
        { t with
          server := { t.server with lastRequest := t.server.lastRequest + 1 }
          out := t.out ++ [registration (t.server.lastRequest + 1)] }
  | configure (settings : Settings) : Act t { t with server := { t.server with settings } }
  | opened (doc : Document) (hi : t.server.initialized = true) (hnone : doc.settings = none)
      (huri : doc.uri.isScalar = true) :
      Act t ((t.put doc).ask doc.uri)
  | edit (uri text version : Json) :
      Act t { t with server := t.server.update uri fun d => { d with text, version } }
  | close (uri : Json) : Act t { t with server := t.server.close uri }
  | askAgain (uri : Json) (huri : uri.isScalar = true) : Act t ((t.forget uri).ask uri)
  | shutdown : Act t { t with server := { t.server with shutdown := true } }
  | exit : Act t { t with server := { t.server with exited := true } }

abbrev Acts := Relation.ReflTransGen Act

theorem acts_of_says {t t' : Turn} (h : Says t t') : Acts t t' := by
  obtain ⟨replies, lines, hr, rfl⟩ := h
  exact .single (.tell replies lines fun m hm => requestNumber?_of_isReply (hr m hm))

end Turn

open Turn

/-- The handler does nothing but acts in this turn, whether it fails or not. -/
def Performs {α : Type} (m : Handler α) (t : Turn) : Prop := Acts t (m t).2

namespace Performs

variable {α β : Type} {t u : Turn}

theorem pure (a : α) : Performs (Pure.pure a : Handler α) t := .refl

theorem of_replies {m : Handler α} (h : Replies m) : Performs m t := acts_of_says (h t)

theorem change {f : Server → Server} (h : Act t { t with server := f t.server }) :
    Performs (Handler.change f) t := .single h

theorem notify (method : Text) (params : Json) : Performs (Handler.notify method params) t := by
  have hact := Act.tell (t := t)
    [.obj [("jsonrpc", .str "2.0"), ("method", .str method), ("params", params)]] [] (by
      intro m hm
      obtain rfl := List.mem_singleton.1 hm
      rfl)
  rw [List.append_nil] at hact
  exact .single hact

theorem bind {m : Handler α} {f : α → Handler β} (hm : Performs m t)
    (hf : ∀ a u, m t = (.ok a, u) → Performs (f a) u) : Performs (m >>= f) t := by
  rw [Performs, bind_apply]
  rw [Performs] at hm
  cases hr : m t with
  | mk r u =>
    rw [hr] at hm
    cases r with
    | error e => exact hm
    | ok a => exact hm.trans (hf a u hr)

theorem lift {e : Except Fault α} {f : α → Handler β} (h : ∀ a, e = .ok a → Performs (f a) t) :
    Performs ((liftM e : Handler α) >>= f) t := by
  refine bind .refl fun a u hr => ?_
  rw [Session.liftM_apply] at hr
  obtain ⟨rfl, rfl⟩ := Prod.mk.inj hr
  exact h a rfl

theorem server {f : Server → Handler β} (h : Performs (f t.server) t) :
    Performs (Handler.server >>= f) t := h

theorem recover {m : Handler Unit} {next : Fault → Handler Unit} {sort : Fault → Bool}
    (hm : Performs m t) (hn : ∀ e u, Performs (next e) u) : Performs (Handler.recover m sort next) t := by
  rw [Performs] at hm ⊢
  rw [Handler.recover]
  split
  · next e u hr =>
    rw [hr] at hm
    split
    · exact hm.trans (hn e u)
    · exact hm
  · exact hm

theorem each {f : α → Handler Unit} {p : α → Prop} {as : List α} (ha : ∀ a ∈ as, p a)
    (hf : ∀ a t, p a → Performs (f a) t) : Performs (Handler.each f as) t := by
  induction as generalizing t with
  | nil => exact pure ()
  | cons a as ih =>
    refine bind (hf a t (ha a List.mem_cons_self)) fun _ u _ => ?_
    exact ih fun b hb => ha b (List.mem_cons_of_mem _ hb)

end Performs

namespace Session

variable {t : Turn}

theorem askForSettings_apply (doc : Document) (t : Turn) :
    askForSettings doc t = (.ok (), t.ask doc.uri) := by
  simp only [askForSettings, bind_apply, Handler.server, Turn.ask]
  split <;> rfl

theorem publish_tells (doc : Document) (t : Turn) :
    ∃ (messages : List Json) (lines : List Text), (∀ m ∈ messages, requestNumber? m = none) ∧
      (publish doc t).2 = { t with out := t.out ++ messages, log := t.log ++ lines } := by
  simp only [publish, bind_apply, Handler.log, Handler.server, liftM_apply]
  cases doc.items t.server.settings with
  | error e => exact ⟨[], _, by simp, by rw [List.append_nil]⟩
  | ok items => exact ⟨[_], _, by simp [requestNumber?, Json.lookup], rfl⟩

theorem performs_publish (doc : Document) (t : Turn) : Performs (publish doc) t := by
  obtain ⟨messages, lines, hm, hrun⟩ := publish_tells doc t
  rw [Performs, hrun]
  exact .single (.tell messages lines hm)

theorem performs_register : Performs register t := by
  refine Performs.server ?_
  split
  · exact .single Act.register
  · exact Performs.pure ()

theorem performs_didOpen (params : Json) (hi : t.server.initialized = true) :
    Performs (didOpen params) t := by
  refine Performs.lift fun item _ => Performs.lift fun uri _ => Performs.lift fun text _ => ?_
  refine Performs.lift fun version _ => Performs.lift fun _ hscalar => ?_
  have huri : uri.isScalar = true := by
    cases hu : uri.isScalar with
    | true => rfl
    | false => simp [Json.requireScalar, hu] at hscalar
  let doc : Document := { uri, text, version }
  -- Opening and asking are one act: no state between them has a document without settings or request.
  have hopen : Acts t ((t.put doc).ask doc.uri) := .single (.opened doc hi rfl huri)
  have hrun : (Handler.change (fun s => { s with documents := Server.putDocument doc s.documents })
      >>= fun _ => askForSettings doc >>= fun _ => publish doc) t =
        publish doc ((t.put doc).ask doc.uri) := by
    simp only [bind_apply, Handler.change, askForSettings_apply]
    rfl
  rw [Performs, hrun]
  exact hopen.trans (performs_publish doc _)

theorem performs_didChange (params : Json) : Performs (didChange params) t := by
  refine Performs.lift fun item _ => Performs.lift fun uri _ => Performs.server ?_
  refine Performs.lift fun found hf => ?_
  cases found with
  | none => exact Performs.of_replies (Replies.log _)
  | some doc =>
    refine Performs.lift fun changes _ => ?_
    split
    · refine Performs.lift fun text _ => Performs.lift fun version _ => ?_
      exact Performs.bind (Performs.change (.edit uri text version)) fun _ u _ =>
        performs_publish _ u
    · exact Performs.pure ()

theorem performs_didClose (params : Json) : Performs (didClose params) t := by
  refine Performs.lift fun item _ => Performs.lift fun uri _ => Performs.server ?_
  have hclose : Performs (Handler.change (·.close uri) >>= fun _ =>
      Handler.notify "textDocument/publishDiagnostics"
        (.obj [("uri", uri), ("diagnostics", .arr [])])) t :=
    Performs.bind (Performs.change (.close uri)) fun _ u _ => Performs.notify _ _
  simp only
  split
  · exact Performs.lift fun _ _ => hclose
  · exact hclose

theorem performs_askAgain (doc : Document) (t : Turn) (h : doc.uri.isScalar = true) :
    Performs (askAgain doc) t := by
  have hrun : askAgain doc t = (.ok (), (t.forget doc.uri).ask doc.uri) :=
    askForSettings_apply doc _
  rw [Performs, hrun]
  exact .single (.askAgain doc.uri h)

theorem performs_didChangeConfiguration (params : Json)
    (hs : ∀ d ∈ t.server.documents, d.uri.isScalar = true) :
    Performs (didChangeConfiguration params) t := by
  have hrepublish : ∀ u, Performs (Handler.server >>= fun s => each publish s.documents) u := by
    intro u
    refine Performs.server (Performs.each (p := fun _ => True) (by simp) fun doc u _ => ?_)
    exact performs_publish doc u
  refine Performs.server ?_
  simp only
  split
  · refine Performs.server (Performs.bind ?_ fun _ u _ => hrepublish u)
    exact Performs.each hs fun doc u => performs_askAgain doc u
  · refine Performs.lift fun settings _ => ?_
    exact Performs.bind (Performs.change (.configure settings)) fun _ u _ => hrepublish u

theorem performs_handle (files : FileReader) (method : String) (id params : Json)
    (hi : t.server.initialized = true) (hs : ∀ d ∈ t.server.documents, d.uri.isScalar = true) :
    Performs (handle files method id params) t := by
  unfold handle
  split
  · exact Performs.of_replies (by simp)
  · exact performs_register
  · exact Performs.bind (Performs.change .shutdown) fun _ u _ =>
      Performs.of_replies (Replies.respond _ _)
  · exact Performs.change .exit
  · exact performs_didOpen params hi
  · exact performs_didChange params
  · exact performs_didClose params
  · exact Performs.pure ()
  · exact performs_didChangeConfiguration params hs
  · exact Performs.bind (Performs.of_replies (Replies.log _)) fun _ u _ => Performs.notify _ _
  · exact Performs.lift fun item _ => Performs.lift fun uri _ =>
      Performs.of_replies (replies_diagnostic files id uri)
  · exact Performs.of_replies (Replies.respond _ _)
  · exact Performs.of_replies (replies_completionResolve id params)
  · exact Performs.of_replies (replies_codeAction id params)
  · exact Performs.lift fun item _ => Performs.lift fun uri _ => Performs.lift fun position _ =>
      Performs.of_replies (replies_hover id uri position)
  · exact Performs.of_replies (replies_unknown id _)

theorem performs_start (id params : Json) (hi : t.server.initialized = false) :
    Performs (start id params) t := by
  refine Performs.lift fun _ _ => Performs.lift fun workspace _ => Performs.lift fun asks _ => ?_
  refine Performs.lift fun folders _ => Performs.bind (Performs.change (.start _ _ hi)) fun _ u _ => ?_
  exact Performs.of_replies (by simp)

theorem performs_await (method id params : Json) (hi : t.server.initialized = false) :
    Performs (await method id params) t := by
  unfold await
  split
  · exact performs_start id params hi
  · split
    · exact Performs.change .exit
    · exact Performs.of_replies (by simp)

end Session

end LittleMan
