import LittleMan.Proofs.Session.Grants
import LittleMan.Proofs.Session.Reachable
import LittleMan.Proofs.Session.Stages

/-! Messages before a session has started. The one that starts it tells what the client is able to do, and
no other changes what the server knows, but for the end that it may ask for. -/

namespace LittleMan

open Handler

namespace Session

variable {files : FileReader} {server : Server} {fields : List (Text × Json)} {name : Json} {t : Turn}

theorem turn_of_early (files : FileReader) (hi : server.initialized = false)
    (hm : Json.lookup "method" fields = some name) (hne : name ≠ .null) :
    turn files server (.message fields) =
      match await name (messageId fields) (messageParams fields) { server } with
      | (.ok _, t) => t
      | (.error e, t) => { t with fault := some e } := by
  have hreceive : receive files fields { server } =
      await name (messageId fields) (messageParams fields) { server } := by
    simp only [receive, hm, Option.getD_some, if_neg hne, bind_apply, Handler.server, hi,
      Bool.false_eq_true, if_false, messageId, messageParams]
  rw [turn]
  cases hawait : await name (messageId fields) (messageParams fields) { server } with
  | mk r u =>
    cases r with
    | error e => rw [hreceive, hawait]
    | ok a => rw [hreceive, hawait]

/-- What the client is able to do, as the message that starts a session tells it: whether it answers
requests for settings, and whether it has folders. -/
def abilitiesOf (params : Json) : Except Fault (Bool × Bool) := do
  let orEmpty (v : Json) : Json := if v.isEmpty then .obj [] else v
  let workspace ← (orEmpty (← params.field? "capabilities")).field? "workspace"
  let configuration ← (orEmpty workspace).field? "configuration"
  let folders ← (orEmpty workspace).field? "workspaceFolders"
  return (!configuration.isEmpty, !folders.isEmpty)

def begun (server : Server) (abilities : Bool × Bool) : Server :=
  { server with asksSettings := abilities.1, hasFolders := abilities.2, initialized := true }

theorem start_cases (id params : Json) (t : Turn) :
    (∃ e, abilitiesOf params = .error e ∧ start id params t = (.error e, t)) ∨
      ∃ abilities, abilitiesOf params = .ok abilities ∧ (start id params t).1 = .ok () ∧
        (start id params t).2.server = begun t.server abilities := by
  unfold abilitiesOf start
  cases hc : params.field? "capabilities" with
  | error e => exact Or.inl ⟨e, rfl, rfl⟩
  | ok c =>
    simp only [bind, Except.bind, liftM_apply]
    cases hw : (if c.isEmpty then .obj [] else c : Json).field? "workspace" with
    | error e => exact Or.inl ⟨e, rfl, rfl⟩
    | ok w =>
      cases ha : (if w.isEmpty then .obj [] else w : Json).field? "configuration" with
      | error e => exact Or.inl ⟨e, by simp only [ha], by simp only [ha]⟩
      | ok a =>
        cases hf : (if w.isEmpty then .obj [] else w : Json).field? "workspaceFolders" with
        | error e => exact Or.inl ⟨e, by simp only [ha, hf], by simp only [ha, hf]⟩
        | ok f =>
          refine Or.inr ⟨(!a.isEmpty, !f.isEmpty), ?_, ?_, ?_⟩
          · simp only [ha, hf]
            rfl
          · simp only [ha, hf]
            rfl
          · simp only [ha, hf]
            rfl

theorem server_of_start (hi : server.initialized = false)
    (hm : Json.lookup "method" fields = some (.str "initialize"))
    (hf : (turn files server (.message fields)).fault = none) :
    ∃ abilities, abilitiesOf (messageParams fields) = .ok abilities ∧
      (turn files server (.message fields)).server = begun server abilities := by
  rw [turn_of_early files hi hm (by simp)] at hf ⊢
  rw [await, if_pos rfl] at hf ⊢
  rcases start_cases (messageId fields) (messageParams fields) { server } with
    ⟨e, -, hrun⟩ | ⟨abilities, ha, hok, hserver⟩
  · rw [hrun] at hf
    cases hf
  · generalize start (messageId fields) (messageParams fields) { server } = r at hok hserver ⊢
    obtain ⟨_, u⟩ := r
    cases hok
    exact ⟨abilities, ha, hserver⟩

theorem server_of_early (files : FileReader) (hi : server.initialized = false)
    (hm : Json.lookup "method" fields = some name) (hne : name ≠ .null)
    (hstart : name ≠ .str "initialize") :
    (turn files server (.message fields)).server = server ∨
      name = .str "exit" ∧
        (turn files server (.message fields)).server = { server with exited := true } := by
  rw [turn_of_early files hi hm hne, await, if_neg hstart]
  by_cases hexit : name = .str "exit"
  · rw [if_pos hexit]
    exact Or.inr ⟨hexit, rfl⟩
  · rw [if_neg hexit]
    refine Or.inl ?_
    split
    · next h => split at h <;> cases h <;> rfl
    · next h => split at h <;> cases h

theorem initialized_settled (server : Server) (left : List (Nat × Json)) (uri result : Json) :
    (settled server left uri result).initialized = server.initialized := by
  unfold settled
  split <;> rfl

theorem initialized_turn (files : FileReader) (frame : Frame) (hs : server.Consistent)
    (hi : server.initialized = true) : (turn files server frame).server.initialized = true := by
  cases outcome_turn files hs frame with
  | acts _ t hacts hserver =>
    rw [hserver]
    exact (Turn.Acts.asksSettings_eq hacts hi).1
  | ignored _ _ _ _ hserver =>
    rw [hserver]
    exact hi
  | settled id result before after n uri _ _ _ hserver =>
    rw [hserver, initialized_settled]
    exact hi

end Session

end LittleMan
