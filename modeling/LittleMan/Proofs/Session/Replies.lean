import LittleMan.Session.Transcript

/-! Handlers that only answer. They write messages without a method and lines of the log, and leave what
the server knows as it is. -/

namespace LittleMan

open Handler

/-- The message carries no method, so it is neither a request nor a notification. -/
def IsReply (message : Json) : Prop :=
  ∃ fields, message = .obj fields ∧ Json.lookup "method" fields = none

/-- The turn goes on with replies and lines of the log. -/
def Says (t t' : Turn) : Prop :=
  ∃ (replies : List Json) (lines : List Text), (∀ m ∈ replies, IsReply m) ∧
    t' = { t with out := t.out ++ replies, log := t.log ++ lines }

theorem Says.refl (t : Turn) : Says t t := ⟨[], [], by simp, by simp⟩

theorem Says.trans {t u v : Turn} (h : Says t u) (h' : Says u v) : Says t v := by
  obtain ⟨replies, lines, hr, rfl⟩ := h
  obtain ⟨replies', lines', hr', rfl⟩ := h'
  refine ⟨replies ++ replies', lines ++ lines', fun m hm => ?_, by simp⟩
  rcases List.mem_append.1 hm with hm | hm
  · exact hr m hm
  · exact hr' m hm

theorem says_reply {t : Turn} {message : Json} (h : IsReply message) :
    Says t { t with out := t.out ++ [message] } :=
  ⟨[message], [], by simpa using h, by simp⟩

/-- The handler only replies, whether it fails or not. -/
def Replies {α : Type} (m : Handler α) : Prop := ∀ t, Says t (m t).2

namespace Replies

variable {α β : Type}

@[simp] theorem pure (a : α) : Replies (Pure.pure a : Handler α) := Says.refl

@[simp] theorem lift (e : Except Fault α) : Replies (liftM e : Handler α) := Says.refl

@[simp] theorem fail (e : Fault) : Replies (Handler.fail e : Handler α) := Says.refl

@[simp] theorem server : Replies Handler.server := Says.refl

@[simp] theorem log (line : Text) : Replies (Handler.log line) :=
  fun t => ⟨[], [line], by simp, by simp [Handler.log]⟩

@[simp] theorem respond (id result : Json) : Replies (Handler.respond id result) :=
  fun _ => says_reply ⟨_, rfl, rfl⟩

@[simp] theorem refuse (id : Json) (code : Int) (message : Text) :
    Replies (Handler.refuse id code message) :=
  fun _ => says_reply ⟨_, rfl, rfl⟩

@[simp] theorem bind {m : Handler α} {f : α → Handler β} (hm : Replies m)
    (hf : ∀ a, Replies (f a)) : Replies (m >>= f) := by
  intro t
  rw [bind_apply]
  have hs := hm t
  cases hr : m t with
  | mk r u =>
    rw [hr] at hs
    cases r with
    | error e => exact hs
    | ok a => exact hs.trans (hf a u)

@[simp] theorem ite {c : Prop} [Decidable c] {m n : Handler α} (hm : Replies m) (hn : Replies n) :
    Replies (if c then m else n) := by
  split
  · exact hm
  · exact hn

end Replies

namespace Session

theorem replies_diagnostic (files : FileReader) (id uri : Json) :
    Replies (diagnostic files id uri) := by
  have hanswer : ∀ doc : Document, Replies (do
      let items ← doc.items (← Handler.server).settings
      respond id (.obj [("kind", .str "full"), ("items", .arr items)]) : Handler Unit) := by
    simp
  refine Replies.bind Replies.server fun s => Replies.bind (Replies.lift _) fun found => ?_
  cases found with
  | some doc => exact hanswer doc
  | none =>
    cases uri with
    | str name =>
      simp only
      split
      · simp
      · simp
      · split <;> simp_all
    | _ => exact Replies.fail _

theorem replies_completionResolve (id item : Json) : Replies (completionResolve id item) := by
  unfold completionResolve
  split
  · split <;> simp
  · simp

theorem replies_codeAction (id params : Json) : Replies (codeAction id params) := by
  unfold codeAction
  refine Replies.bind (Replies.lift _) fun _ => Replies.bind (Replies.lift _) fun uri => ?_
  refine Replies.bind Replies.server fun s => Replies.bind (Replies.lift _) fun found => ?_
  cases found <;> simp

theorem replies_hover (id uri position : Json) : Replies (hover id uri position) := by
  unfold hover
  refine Replies.bind Replies.server fun s => Replies.bind (Replies.lift _) fun found => ?_
  cases found with
  | none => simp
  | some doc =>
    refine Replies.bind (Replies.lift _) fun s => Replies.bind (Replies.lift _) fun shown => ?_
    cases shown <;> simp

theorem replies_unknown (id method : Json) : Replies (handle.unknown id method) := by
  simp [handle.unknown]

theorem replies_refuseParams (method id : Json) (why : Fault) :
    Replies (refuseParams method id why) := by
  simp [refuseParams]

end Session

end LittleMan
