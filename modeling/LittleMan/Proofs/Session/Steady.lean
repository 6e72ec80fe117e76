import LittleMan.Proofs.Session.Notices

/-! Where a session stands: whether it has started, is shut down or ends, and what the client is able to do.
The handlers of a started session leave it at that but for two, be they broken off or not. -/

namespace LittleMan

open Handler

structure Phase where
  initialized : Bool
  shutdown : Bool
  exited : Bool
  asksSettings : Bool
  hasFolders : Bool
  deriving DecidableEq

def Server.phase (s : Server) : Phase :=
  ⟨s.initialized, s.shutdown, s.exited, s.asksSettings, s.hasFolders⟩

/-- The frame calls that method. -/
def Frame.calls (method : String) (frame : Frame) : Bool := frame.call?.any (·.1 = method)

/-- The handler leaves the phase as it is in every turn, whether it fails or not. -/
def Steady {α : Type} (m : Handler α) : Prop := ∀ t, (m t).2.server.phase = t.server.phase

namespace Steady

variable {α β : Type}

theorem of_replies {m : Handler α} (h : Replies m) : Steady m := by
  intro t
  rw [Session.Replies.server_eq h t]

theorem lift (e : Except Fault α) : Steady (liftM e : Handler α) := of_replies (Replies.lift e)

theorem pure (a : α) : Steady (Pure.pure a : Handler α) := of_replies (Replies.pure a)

theorem server : Steady Handler.server := of_replies Replies.server

theorem write (message : Json) : Steady (Handler.write message) := fun _ => rfl

theorem change {f : Server → Server} (h : ∀ s, (f s).phase = s.phase) : Steady (Handler.change f) :=
  fun t => h t.server

theorem bind {m : Handler α} {f : α → Handler β} (hm : Steady m) (hf : ∀ a, Steady (f a)) :
    Steady (m >>= f) := by
  intro t
  have hfirst := hm t
  rw [bind_apply]
  cases hr : m t with
  | mk r u =>
    rw [hr] at hfirst
    cases r with
    | error e => exact hfirst
    | ok a =>
      have hsecond := hf a u
      exact hsecond.trans hfirst

theorem ite {c : Prop} [Decidable c] {m n : Handler α} (hm : Steady m) (hn : Steady n) :
    Steady (if c then m else n) := by
  by_cases h : c
  · rwa [if_pos h]
  · rwa [if_neg h]

theorem each {f : α → Handler Unit} (h : ∀ a, Steady (f a)) (as : List α) :
    Steady (Handler.each f as) := by
  induction as with
  | nil => exact pure ()
  | cons a as ih => exact bind (h a) fun _ => ih

theorem request (method : String) (params : Json) : Steady (Handler.request method params) := by
  apply bind
  · exact change fun _ => rfl
  · intro _
    apply bind server
    intro s
    exact bind (write _) fun _ => pure _

end Steady

namespace Session

theorem steady_publish (doc : Document) : Steady (publish doc) := by
  intro t
  rw [publish_server]

theorem steady_askForSettings (doc : Document) : Steady (askForSettings doc) := by
  apply Steady.bind Steady.server
  intro s
  apply Steady.ite
  · apply Steady.bind (Steady.request _ _)
    intro n
    exact Steady.change fun _ => rfl
  · exact Steady.pure ()

theorem steady_register : Steady register := by
  apply Steady.bind Steady.server
  intro s
  apply Steady.ite
  · exact Steady.bind (Steady.request _ _) fun _ => Steady.pure ()
  · exact Steady.pure ()

theorem steady_didOpen (params : Json) : Steady (didOpen params) := by
  have hopen : ∀ doc : Document, Steady (do
      Handler.change fun s => { s with documents := Server.putDocument doc s.documents }
      askForSettings doc
      publish doc) := by
    intro doc
    apply Steady.bind
    · exact Steady.change fun _ => rfl
    · intro _
      exact Steady.bind (steady_askForSettings doc) fun _ => steady_publish doc
  apply Steady.bind (Steady.lift _)
  intro item
  apply Steady.bind (Steady.lift _)
  intro uri
  apply Steady.bind (Steady.lift _)
  intro text
  apply Steady.bind (Steady.lift _)
  intro version
  exact Steady.bind (Steady.lift _) fun _ => hopen _

theorem steady_didChange (params : Json) : Steady (didChange params) := by
  apply Steady.bind (Steady.lift _)
  intro item
  apply Steady.bind (Steady.lift _)
  intro uri
  apply Steady.bind Steady.server
  intro s
  apply Steady.bind (Steady.lift _)
  intro found
  cases found with
  | none => exact Steady.of_replies (Replies.log _)
  | some doc =>
    apply Steady.bind (Steady.lift _)
    intro changes
    apply Steady.ite
    · apply Steady.bind (Steady.lift _)
      intro text
      apply Steady.bind (Steady.lift _)
      intro version
      apply Steady.bind
      · exact Steady.change fun _ => rfl
      · exact fun _ => steady_publish _
    · exact Steady.pure ()

theorem steady_didClose (params : Json) : Steady (didClose params) := by
  have hclose : ∀ uri : Json, Steady (do
      Handler.change (·.close uri)
      Handler.notify "textDocument/publishDiagnostics"
        (.obj [("uri", uri), ("diagnostics", .arr [])])) := by
    intro uri
    apply Steady.bind
    · exact Steady.change fun _ => rfl
    · exact fun _ => Steady.write _
  apply Steady.bind (Steady.lift _)
  intro item
  apply Steady.bind (Steady.lift _)
  intro uri
  apply Steady.bind Steady.server
  intro s
  apply Steady.ite
  · exact Steady.bind (Steady.lift _) fun _ => hclose uri
  · exact hclose uri

theorem steady_didChangeConfiguration (params : Json) : Steady (didChangeConfiguration params) := by
  have hpublish : Steady (Handler.server >>= fun s => each publish s.documents) :=
    Steady.bind Steady.server fun s => Steady.each steady_publish s.documents
  apply Steady.bind Steady.server
  intro s
  apply Steady.ite
  · apply Steady.bind Steady.server
    intro s
    apply Steady.bind
    · apply Steady.each
      intro doc
      exact Steady.bind (Steady.change fun _ => rfl) fun _ => steady_askForSettings doc
    · exact fun _ => hpublish
  · apply Steady.bind (Steady.lift _)
    intro settings
    exact Steady.bind (Steady.change fun _ => rfl) fun _ => hpublish

theorem steady_takeAnswer (result : Json) (left : List (Nat × Json)) (uri : Json) :
    Steady (takeAnswer result left uri) := by
  apply Steady.bind
  · exact Steady.change fun _ => rfl
  · intro _
    apply Steady.ite
    · apply Steady.bind Steady.server
      intro s
      apply Steady.bind (Steady.lift _)
      intro found
      cases found with
      | none => exact Steady.pure ()
      | some doc =>
        apply Steady.bind
        · exact Steady.change fun _ => rfl
        · exact fun _ => steady_publish _
    · exact Steady.pure ()

theorem steady_didAnswer (id result : Json) : Steady (didAnswer id result) := by
  intro t
  rw [didAnswer_apply]
  by_cases h : t.server.pending = [] ∨ id.isScalar = true
  · rw [if_pos h]
    exact steady_takeAnswer _ _ _ t
  · rw [if_neg h]

theorem steady_handle (files : FileReader) {method : String} (id params : Json)
    (hshutdown : method ≠ "shutdown") (hexit : method ≠ "exit") :
    Steady (handle files method id params) := by
  unfold handle
  split
  · exact Steady.of_replies (by simp)
  · exact steady_register
  · exact absurd rfl hshutdown
  · exact absurd rfl hexit
  · exact steady_didOpen params
  · exact steady_didChange params
  · exact steady_didClose params
  · exact Steady.pure ()
  · exact steady_didChangeConfiguration params
  · exact Steady.bind (Steady.of_replies (Replies.log _)) fun _ => Steady.write _
  · apply Steady.bind (Steady.lift _)
    intro item
    apply Steady.bind (Steady.lift _)
    intro uri
    exact Steady.of_replies (replies_diagnostic files id uri)
  · exact Steady.of_replies (Replies.respond _ _)
  · exact Steady.of_replies (replies_completionResolve id params)
  · exact Steady.of_replies (replies_codeAction id params)
  · apply Steady.bind (Steady.lift _)
    intro item
    apply Steady.bind (Steady.lift _)
    intro uri
    apply Steady.bind (Steady.lift _)
    intro position
    exact Steady.of_replies (replies_hover id uri position)
  · exact Steady.of_replies (replies_unknown id _)

end Session

end LittleMan
