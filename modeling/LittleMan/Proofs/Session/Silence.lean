import LittleMan.Proofs.Session.Replies

/-! Handlers that publish nothing and leave the documents and the common settings as they are. Those that
only reply do so, and so do all messages about the session itself. -/

namespace LittleMan

open Handler

/-- The document and the diagnostics of a message that publishes some. -/
def publication? (message : Json) : Option (Json × Json) :=
  match message with
  | .obj fields =>
    if Json.lookup "method" fields = some (.str "textDocument/publishDiagnostics") then
      match Json.lookup "params" fields with
      | some (.obj params) =>
        (Json.lookup "uri" params).bind fun uri =>
          (Json.lookup "diagnostics" params).map fun items => (uri, items)
      | _ => none
    else none
  | _ => none

def publications (out : List Json) : List (Json × Json) := out.filterMap publication?

/-- The turn goes on without a publication and without a change of what is published. -/
structure Quiet (t t' : Turn) : Prop where
  documents : t'.server.documents = t.server.documents
  settings : t'.server.settings = t.server.settings
  initialized : t.server.initialized = true → t'.server.initialized = true
  publications : publications t'.out = publications t.out

theorem Quiet.refl (t : Turn) : Quiet t t := ⟨rfl, rfl, id, rfl⟩

theorem Quiet.trans {t u v : Turn} (h : Quiet t u) (h' : Quiet u v) : Quiet t v :=
  ⟨h'.documents.trans h.documents, h'.settings.trans h.settings,
    fun hi => h'.initialized (h.initialized hi), h'.publications.trans h.publications⟩

theorem quiet_out {t : Turn} {message : Json} (h : publication? message = none) :
    Quiet t { t with out := t.out ++ [message] } :=
  ⟨rfl, rfl, id, by simp [publications, h]⟩

theorem publication?_of_isReply {message : Json} (h : IsReply message) :
    publication? message = none := by
  obtain ⟨fields, rfl, hm⟩ := h
  simp [publication?, hm]

theorem quiet_of_says {t t' : Turn} (h : Says t t') : Quiet t t' := by
  obtain ⟨replies, lines, hr, rfl⟩ := h
  have hnone : publications replies = [] :=
    List.filterMap_eq_nil_iff.2 fun m hm => publication?_of_isReply (hr m hm)
  refine ⟨rfl, rfl, id, ?_⟩
  rw [publications, List.filterMap_append]
  exact List.append_right_eq_self.2 hnone

/-- The handler is quiet in every turn, whether it fails or not. -/
def Silent {α : Type} (m : Handler α) : Prop := ∀ t, Quiet t (m t).2

namespace Silent

variable {α β : Type}

@[simp] theorem pure (a : α) : Silent (Pure.pure a : Handler α) := Quiet.refl

@[simp] theorem lift (e : Except Fault α) : Silent (liftM e : Handler α) := Quiet.refl

@[simp] theorem server : Silent Handler.server := Quiet.refl

theorem of_replies {m : Handler α} (h : Replies m) : Silent m := fun t => quiet_of_says (h t)

@[simp] theorem log (line : Text) : Silent (Handler.log line) := of_replies (Replies.log line)

@[simp] theorem respond (id result : Json) : Silent (Handler.respond id result) :=
  of_replies (Replies.respond id result)

@[simp] theorem refuse (id : Json) (code : Int) (message : Text) :
    Silent (Handler.refuse id code message) :=
  of_replies (Replies.refuse id code message)

theorem notify {method : Text} (params : Json) (h : method ≠ "textDocument/publishDiagnostics") :
    Silent (Handler.notify method params) :=
  fun _ => quiet_out (by simp [publication?, Json.lookup, h])

theorem change {f : Server → Server} (hd : ∀ s, (f s).documents = s.documents)
    (hs : ∀ s, (f s).settings = s.settings)
    (hi : ∀ s, s.initialized = true → (f s).initialized = true) : Silent (Handler.change f) :=
  fun t => ⟨hd t.server, hs t.server, hi t.server, rfl⟩

@[simp] theorem bind {m : Handler α} {f : α → Handler β} (hm : Silent m) (hf : ∀ a, Silent (f a)) :
    Silent (m >>= f) := by
  intro t
  rw [bind_apply]
  have hq := hm t
  cases hr : m t with
  | mk r u =>
    rw [hr] at hq
    cases r with
    | error e => exact hq
    | ok a => exact hq.trans (hf a u)

@[simp] theorem ite {c : Prop} [Decidable c] {m n : Handler α} (hm : Silent m) (hn : Silent n) :
    Silent (if c then m else n) := by
  split
  · exact hm
  · exact hn

@[simp] theorem request (method : Text) (params : Json)
    (h : method ≠ "textDocument/publishDiagnostics") : Silent (Handler.request method params) := by
  have hw : ∀ n : Nat, publication? (.obj [("jsonrpc", .str "2.0"), ("id", .int n),
      ("method", .str method), ("params", params)]) = none := by
    simp [publication?, Json.lookup, h]
  refine bind (change (fun _ => rfl) (fun _ => rfl) fun _ => id) fun _ => bind server fun s => ?_
  exact bind (fun _ => quiet_out (hw s.lastRequest)) fun _ => pure _

end Silent

namespace Session

theorem silent_askForSettings (doc : Document) : Silent (askForSettings doc) := by
  refine Silent.bind Silent.server fun s => Silent.ite ?_ (Silent.pure ())
  refine Silent.bind (Silent.request _ _ (by decide)) fun n => ?_
  exact Silent.change (fun _ => rfl) (fun _ => rfl) fun _ => id

theorem silent_register : Silent register := by
  refine Silent.bind Silent.server fun s => Silent.ite ?_ (Silent.pure ())
  exact Silent.bind (Silent.request _ _ (by decide)) fun _ => Silent.pure ()

theorem silent_start (id params : Json) : Silent (start id params) := by
  refine Silent.bind (Silent.lift _) fun _ => Silent.bind (Silent.lift _) fun _ => ?_
  refine Silent.bind (Silent.lift _) fun _ => Silent.bind (Silent.lift _) fun _ => ?_
  refine Silent.bind (Silent.change (fun _ => rfl) (fun _ => rfl) fun _ _ => rfl) fun _ => ?_
  exact Silent.bind (Silent.respond _ _) fun _ => Silent.log _

theorem silent_await (method id params : Json) : Silent (await method id params) := by
  refine Silent.ite (silent_start id params) (Silent.ite ?_ ?_)
  · exact Silent.change (fun _ => rfl) (fun _ => rfl) fun _ h => h
  · simp

end Session

end LittleMan
