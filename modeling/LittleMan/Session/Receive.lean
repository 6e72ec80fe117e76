import LittleMan.Session.Requests

/-! Which message asks for what. Until the session has started all requests but the starting one are
refused. A message with parameters of the wrong form is refused and the session goes on; any other
failure ends it. -/

namespace LittleMan

open Handler

namespace Session

def handle (files : FileReader) (method : String) (id params : Json) : Handler Unit :=
  match method with
  | "initialize" => do
    log "LSP was already initialized"
    refuse id (-32600) "LSP was already initialized"
  | "initialized" => register
  | "shutdown" => do
    change fun s => { s with shutdown := true }
    respond id .null
  | "exit" => change fun s => { s with exited := true }
  | "textDocument/didOpen" => didOpen params
  | "textDocument/didChange" => didChange params
  | "textDocument/didClose" => didClose params
  | "textDocument/didSave" => pure ()
  | "workspace/didChangeConfiguration" => didChangeConfiguration params
  | "workspace/didChangeWatchedFiles" => do
    let text := "We received a file change event"
    log text
    notify "window/logMessage" (.obj [("type", .int 3), ("message", .str text)])
  | "textDocument/diagnostic" => do
    diagnostic files id (← (← params.field "textDocument").field "uri")
  | "textDocument/completion" => completion id
  | "completionItem/resolve" => completionResolve id params
  | "textDocument/codeAction" => codeAction id params
  | "textDocument/hover" => do
    let uri ← (← params.field "textDocument").field "uri"
    hover id uri (← params.field "position")
  | _ => unknown id (.str method)
where
  /-- A method that is not known; only a request gets an answer. -/
  unknown (id method : Json) : Handler Unit := do
    let text := "Method " ++ method.display ++ " not supported"
    log text
    if id ≠ .null then refuse id (-32601) text

def await (method id params : Json) : Handler Unit :=
  if method = .str "initialize" then start id params
  else if method = .str "exit" then change fun s => { s with exited := true }
  else if id ≠ .null then do
    log "Message before LSP was initialized"
    refuse id (-32002) "LSP not initialized"
  else pure ()

def isInvalidParams : Fault → Bool
  | .missingKey _ | .missingItem _ | .wrongShape => true
  | _ => false

/-- The exception that the log names. How the interpreter words what is wrong with the shape of a value is
left out. -/
def account : Fault → Text
  | .missingKey key => "KeyError(" ++ quoted key.toList ++ ")"
  | .missingItem index => "KeyError(" ++ toString index ++ ")"
  | _ => "TypeError"

def refuseParams (method id : Json) (why : Fault) : Handler Unit := do
  let text := "Invalid params for " ++ method.display
  log (text ++ ": " ++ account why)
  if id ≠ .null then refuse id (-32602) text

/-- Handles a message, given by its fields. Without a method it is an answer. -/
def receive (files : FileReader) (message : List (Text × Json)) : Handler Unit := do
  let get (key : Text) : Json := (Json.lookup key message).getD .null
  let method := get "method"
  let id := get "id"
  let params := if (get "params").isEmpty then .obj [] else get "params"
  if method = .null then didAnswer id (get "result")
  else if (← server).initialized then
    let action :=
      match method.string? with
      | some name => handle files name id params
      | none => handle.unknown id method
    recover action isInvalidParams (refuseParams method id)
  else await method id params

end Session

end LittleMan
