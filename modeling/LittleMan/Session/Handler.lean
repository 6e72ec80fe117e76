import LittleMan.Session.Server

/-! Actions of the server while it handles a message: they change what it knows, write messages and add
lines to its log. What was done before a failure stays done. -/

namespace LittleMan

/-- The server in the course of a message, with the messages written and the lines logged so far. -/
structure Turn where
  server : Server
  out : List Json := []
  log : List Text := []
  /-- Why handling the message broke off. -/
  fault : Option Fault := none
  deriving DecidableEq, Repr

def Handler (α : Type) : Type := Turn → Except Fault α × Turn

namespace Handler

instance : Monad Handler where
  pure a := fun t => (.ok a, t)
  bind m f := fun t =>
    match m t with
    | (.ok a, t) => f a t
    | (.error e, t) => (.error e, t)

instance : MonadLift (Except Fault) Handler where
  monadLift e := fun t => (e, t)

def fail {α : Type} (e : Fault) : Handler α := fun t => (.error e, t)

def recover (m : Handler Unit) (sort : Fault → Bool) (next : Fault → Handler Unit) : Handler Unit :=
  fun t =>
  match m t with
  | (.error e, t) => if sort e then next e t else (.error e, t)
  | r => r

def server : Handler Server := fun t => (.ok t.server, t)

def change (f : Server → Server) : Handler Unit := fun t =>
  (.ok (), { t with server := f t.server })

def log (line : Text) : Handler Unit := fun t => (.ok (), { t with log := t.log ++ [line] })

def write (message : Json) : Handler Unit := fun t =>
  (.ok (), { t with out := t.out ++ [message] })

def each {α : Type} (f : α → Handler Unit) : List α → Handler Unit
  | [] => pure ()
  | a :: rest => do
    f a
    each f rest

def respond (id result : Json) : Handler Unit :=
  write (.obj [("jsonrpc", .str "2.0"), ("id", id), ("result", result)])

def refuse (id : Json) (code : Int) (message : Text) : Handler Unit :=
  write (.obj [("jsonrpc", .str "2.0"), ("id", id),
    ("error", .obj [("code", .int code), ("message", .str message)])])

def notify (method : Text) (params : Json) : Handler Unit :=
  write (.obj [("jsonrpc", .str "2.0"), ("method", .str method), ("params", params)])

/-- Sends a request to the client and tells its number. Numbers count up from one. -/
def request (method : Text) (params : Json) : Handler Nat := do
  change fun s => { s with lastRequest := s.lastRequest + 1 }
  let n := (← server).lastRequest
  write (.obj [("jsonrpc", .str "2.0"), ("id", .int n), ("method", .str method),
    ("params", params)])
  return n

theorem pure_apply {α : Type} (a : α) (t : Turn) : (pure a : Handler α) t = (.ok a, t) := rfl

theorem bind_apply {α β : Type} (m : Handler α) (f : α → Handler β) (t : Turn) :
    (m >>= f) t = match m t with
      | (.ok a, t) => f a t
      | (.error e, t) => (.error e, t) := rfl

end Handler

end LittleMan
