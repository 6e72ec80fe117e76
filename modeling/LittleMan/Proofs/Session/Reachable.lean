import LittleMan.Proofs.Session.Answers
import LittleMan.Proofs.Session.ClientView

/-! The states of a server between two messages, and how a started server takes a message. Only failures of
the handlers are recovered from or end the session; handlers themselves record none. -/

namespace LittleMan

open Handler Turn

namespace Session

/-- The server after some turns of a session, none of which failed. -/
def Reachable (server : Server) : Prop :=
  ∃ (files : List Text → FileReader) (bytes : List UInt8) (ts : List Turn),
    ts <+: transcript files bytes ∧ (∀ t ∈ ts, t.fault = none) ∧ (merge ts).server = server

theorem Reachable.consistent {server : Server} (h : Reachable server) : server.Consistent := by
  obtain ⟨files, bytes, ts, hts, -, rfl⟩ := h
  have hkept : Kept fun _ server _ => server.Consistent := by
    refine ⟨Server.consistent_empty, fun files _ _ _ frame t halike hs => ?_⟩
    rw [halike.server]
    exact (outcome_turn files hs frame).consistent hs
  exact hkept.of_transcript files hts

def messageId (fields : List (Text × Json)) : Json := (Json.lookup "id" fields).getD .null

/-- The parameters of a message. What is empty or missing counts as an empty object. -/
def messageParams (fields : List (Text × Json)) : Json :=
  if ((Json.lookup "params" fields).getD .null).isEmpty then .obj []
  else (Json.lookup "params" fields).getD .null

theorem Acts.fault_eq {t u : Turn} (h : Acts t u) : u.fault = t.fault := by
  induction h with
  | refl => rfl
  | tail _ hact ih =>
    rw [← ih]
    cases hact with
    | opened | askAgain =>
      simp only [Turn.ask]
      split <;> rfl
    | _ => rfl

variable {server : Server} {fields : List (Text × Json)} {method : String}

theorem handle_fault_eq (files : FileReader) (method : String) (id params : Json)
    (hs : server.Consistent) (hi : server.initialized = true) :
    (handle files method id params { server }).2.fault = none :=
  Acts.fault_eq (performs_handle files method id params hi hs.named)

theorem recover_of_error {m : Handler Unit} {next : Fault → Handler Unit} {sort : Fault → Bool}
    {t u : Turn} {e : Fault} (h : m t = (.error e, u)) :
    Handler.recover m sort next t = if sort e then next e u else (.error e, u) := by
  rw [Handler.recover, h]

/-- The answer to a request with parameters of the wrong form. -/
def paramsRefusal (id : Json) (method : String) : Json :=
  .obj [("jsonrpc", .str "2.0"), ("id", id),
    ("error", .obj [("code", .int (-32602)), ("message", .str ("Invalid params for " ++ method))])]

/-- The line that tells of parameters of the wrong form. -/
def paramsLine (method : String) (why : Fault) : Text :=
  "Invalid params for " ++ method ++ ": " ++ account why

theorem refuseParams_apply (method : String) (id : Json) (why : Fault) (t : Turn) :
    refuseParams (.str method) id why t =
      (.ok (), { t with
        log := t.log ++ [paramsLine method why]
        out := t.out ++ if id = .null then [] else [paramsRefusal id method] }) := by
  rw [refuseParams]
  show (if id ≠ .null then refuse id (-32602) ("Invalid params for " ++ method) else pure ())
    { t with log := t.log ++ [paramsLine method why] } = _
  by_cases h : id = .null
  · rw [if_neg (not_not.2 h), if_pos h, List.append_nil]
    rfl
  · rw [if_pos h, if_neg h]
    rfl

theorem turn_of_method (files : FileReader) (hi : server.initialized = true)
    (hm : Json.lookup "method" fields = some (.str method)) :
    turn files server (.message fields) =
      match handle files method (messageId fields) (messageParams fields) { server } with
      | (.ok _, t) => t
      | (.error e, t) =>
        if isInvalidParams e then
          { t with
            log := t.log ++ [paramsLine method e]
            out := t.out ++
              if messageId fields = .null then [] else [paramsRefusal (messageId fields) method] }
        else { t with fault := some e } := by
  have hreceive : receive files fields { server } =
      Handler.recover (handle files method (messageId fields) (messageParams fields))
        isInvalidParams (refuseParams (.str method) (messageId fields)) { server } :=
    receive_of_method files fields hm hi
  rw [turn, hreceive]
  cases hrun : handle files method (messageId fields) (messageParams fields) { server } with
  | mk r t =>
    cases r with
    | ok a => rw [recover_of_ok hrun]
    | error e =>
      rw [recover_of_error hrun]
      cases hinv : isInvalidParams e with
      | true => simp only [hinv, if_true, refuseParams_apply]
      | false => simp only [hinv, Bool.false_eq_true, if_false]

end Session

end LittleMan
