import LittleMan.Json.Display
import LittleMan.Session.Handler

/-! Messages that open, change and close documents, and that set how many diagnostics the client wants.
After each of them the diagnostics of the documents concerned are published anew. -/

namespace LittleMan

open Handler

namespace Session

def publish (doc : Document) : Handler Unit := do
  log ("Analyzing " ++ doc.uri.display ++ " (version " ++ doc.version.display ++ ")")
  let items ← doc.items (← server).settings
  let version : List (Text × Json) :=
    if doc.version = .null then [] else [("version", doc.version)]
  notify "textDocument/publishDiagnostics"
    (.obj (("uri", doc.uri) :: ("diagnostics", .arr items) :: version))

def askForSettings (doc : Document) : Handler Unit := do
  if (← server).asksSettings then
    let n ← request "workspace/configuration"
      (.obj [("items", .arr [.obj [("scopeUri", doc.uri), ("section", .str Settings.settingsSection)]])])
    change fun s => { s with pending := s.pending ++ [(n, doc.uri)] }

def didOpen (params : Json) : Handler Unit := do
  let item ← params.field "textDocument"
  let uri ← item.field "uri"
  let text ← item.field "text"
  let version ← item.field? "version"
  let doc : Document := { uri, text, version }
  uri.requireScalar
  change fun s => { s with documents := Server.putDocument doc s.documents }
  askForSettings doc
  publish doc

/-- The text after the last of a list of changes, each of which carries the whole text. -/
def lastText (changes : Json) : Except Fault Json :=
  match changes with
  | .arr items =>
    match items.getLast? with
    | some last => last.field "text"
    | none => .error .outOfRange
  | .obj _ => .error (.missingItem (-1))
  | _ => .error .wrongShape

def didChange (params : Json) : Handler Unit := do
  let item ← params.field "textDocument"
  let uri ← item.field "uri"
  match ← (← server).find? uri with
  | none => log ("Change for unopened document " ++ uri.display)
  | some doc =>
    let changes ← params.field "contentChanges"
    if !changes.isEmpty then
      let text ← lastText changes
      let version ← item.field? "version"
      change fun s => s.update uri fun d => { d with text, version }
      publish { doc with text, version }

/-- Closes a document. A name that is no scalar is noticed only when documents are open. -/
def didClose (params : Json) : Handler Unit := do
  let uri ← (← params.field "textDocument").field "uri"
  if !(← server).documents.isEmpty then uri.requireScalar
  change (·.close uri)
  notify "textDocument/publishDiagnostics" (.obj [("uri", uri), ("diagnostics", .arr [])])

def askAgain (doc : Document) : Handler Unit := do
  change fun s => s.update doc.uri fun d => { d with settings := none }
  askForSettings doc

def commonSettings (params : Json) : Except Fault Settings := do
  match ← params.field? "settings" with
  | .obj fields => return Settings.ofJson ((Json.lookup Settings.settingsSection fields).getD .null)
  | _ => return {}

def didChangeConfiguration (params : Json) : Handler Unit := do
  if (← server).asksSettings then
    each askAgain (← server).documents
  else
    let settings ← commonSettings params
    change fun s => { s with settings }
  each publish (← server).documents

/-- The request that an answer belongs to, and the requests left after it. -/
def takePending (id : Json) : List (Nat × Json) → Option Json × List (Nat × Json)
  | [] => (none, [])
  | (n, uri) :: rest =>
    if Json.same (.int n) id then (some uri, rest)
    else
      let (found, left) := takePending id rest
      (found, (n, uri) :: left)

def answeredSettings : Json → Settings
  | .arr (v :: _) => Settings.ofJson v
  | _ => {}

/-- Takes in the answer to a request for settings, unless the document has been closed since. Answers
to other requests are ignored. A number that is no scalar is noticed only when answers are due. -/
def didAnswer (id result : Json) : Handler Unit := do
  let waiting := (← server).pending
  if !waiting.isEmpty then id.requireScalar
  let (uri, left) := takePending id waiting
  change fun s => { s with pending := left }
  let uri := uri.getD .null
  if !uri.isEmpty then
    match ← (← server).find? uri with
    | none => pure ()
    | some doc =>
      let settings := some (answeredSettings result)
      change fun s => s.update uri fun d => { d with settings }
      publish { doc with settings }

end Session

end LittleMan
