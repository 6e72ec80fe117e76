import LittleMan.FileTree
import LittleMan.Protocol.Uri
import LittleMan.Session.Documents

/-! Requests of the client. They are answered from the open documents and change nothing. -/

namespace LittleMan

open Handler

namespace Session

def start (id params : Json) : Handler Unit := do
  let orEmpty (v : Json) : Json := if v.isEmpty then .obj [] else v
  let workspace ← (orEmpty (← params.field? "capabilities")).field? "workspace"
  let workspace := orEmpty workspace
  let asksSettings := !(← workspace.field? "configuration").isEmpty
  let hasFolders := !(← workspace.field? "workspaceFolders").isEmpty
  change fun s => { s with asksSettings, hasFolders, initialized := true }
  let folders : List (Text × Json) :=
    if hasFolders then
      [("workspace", .obj [("workspaceFolders", .obj [("supported", .bool true)])])]
    else []
  let abilities : List (Text × Json) :=
    [("textDocumentSync", .int 1),
      ("completionProvider", .obj [("resolveProvider", .bool true)]),
      ("codeActionProvider", .obj [("codeActionKinds", .arr [.str Action.kind])]),
      ("hoverProvider", .bool true),
      ("diagnosticProvider",
        .obj [("interFileDependencies", .bool false), ("workspaceDiagnostics", .bool false)])]
  respond id (.obj
    [("capabilities", .obj (abilities ++ folders)), ("serverInfo", .obj [("name", .str "lmc")])])
  log "Initialized"

def register : Handler Unit := do
  if (← server).asksSettings then
    let _ ← request "client/registerCapability"
      (.obj [("registrations", .arr [.obj
        [("id", .str "lmc-configuration"),
          ("method", .str "workspace/didChangeConfiguration")]])])

def diagnostic (files : FileReader) (id uri : Json) : Handler Unit := do
  let answer (doc : Document) : Handler Unit := do
    let items ← doc.items (← server).settings
    respond id (.obj [("kind", .str "full"), ("items", .arr items)])
  match ← (← server).find? uri with
  | some doc => answer doc
  | none =>
    match uri with
    | .str name =>
      match pathOfUri? name with
      | none | some "" => refuse id (-32602) ("Cannot convert " ++ name ++ " to a path")
      | some path =>
        match files path with
        | .ok text => answer { uri, text := .str (Text.ofList text) }
        | .error .fileNotFound => refuse id (-32803) ("File not found: " ++ path)
        | .error e => fail e
    | _ => fail .notAnObject

def completion (id : Json) : Handler Unit :=
  respond id (.arr (completions.map (·.toJson)))

/-- The completion entry that an item stands for: the one its data names, or else its label. -/
def entryOf? (fields : List (Text × Json)) : Option Completion :=
  let key := ((Json.lookup "data" fields).orElse fun _ => Json.lookup "label" fields).getD .null
  completions.find? fun e => key = .str e.label

def completionResolve (id item : Json) : Handler Unit := do
  match item with
  | .obj fields =>
    match entryOf? fields with
    | some e =>
      respond id (.obj (Json.setField "documentation" (.str e.doc)
        (Json.setField "detail" (.str e.detail) fields)))
    | none => respond id item
  | _ => fail .notAnObject

def returned (s : Source) : List Json → Except Fault (List Diagnostic)
  | [] => .ok []
  | v :: rest => do
    let d ← Diagnostic.ofJson? s v
    let ds ← returned s rest
    return d.toList ++ ds

/-- The values among which returned diagnostics are looked for; the parts of a text or of an object
are no objects. -/
def contextItems (params : Json) : Except Fault (List Json) := do
  let context ← params.field? "context"
  let context := if context.isEmpty then .obj [] else context
  match context with
  | .obj fields =>
    match Json.lookup "diagnostics" fields with
    | none => return []
    | some (.arr items) => return items
    | some (.str s) => if s = "" then return [] else throw .notAnObject
    | some (.obj fs) => if fs.isEmpty then return [] else throw .notAnObject
    | some _ => throw .wrongShape
  | _ => throw .notAnObject

def requestedRange (s : Source) (params : Json) : Except Fault (Option (Point × Point)) :=
  match params with
  | .obj fields =>
    match Json.lookup "range" fields with
    | some v => (Point.rangeOfJson s v).map some
    | none => .ok none
  | _ => .ok none

def codeActions (s : Source) (params : Json) : Except Fault (List Action) := do
  let ds ← returned s (← contextItems params)
  let range ← requestedRange s params
  proposeActions s none ds fun span => range.all span.touchesRange

def actionItems (s : Source) (params : Json) : Except Fault (List Json) := do
  let actions ← codeActions s params
  actions.mapM (·.toJson s)

def codeAction (id params : Json) : Handler Unit := do
  let uri ← (← params.field "textDocument").field "uri"
  match ← (← server).find? uri with
  | none => respond id (.arr [])
  | some doc =>
    let s ← ({ doc with uri } : Document).source?
    let items ← actionItems s params
    respond id (.arr items)

def hoverText (m : Mnemonic) : Text :=
  "```lmc\n" ++ m.usage ++ "\n```\n" ++ m.summary

/-- What is shown at a position: the description of the mnemonic that the position touches. A negative
line counts from the last line. -/
def hoverAt (s : Source) (position : Json) : Except Fault (Option (Mnemonic × Span)) := do
  let line ← (← position.field "line").number
  if (Number.whole s.lines.length).le line then return none
  match line with
  | .real _ => throw .wrongShape
  | .whole n =>
    let some text := nth? s.lines n | throw .outOfRange
    let col := columnOf text (← (← position.field "character").number)
    let some statement := Statement.read? text | return none
    let some m := Mnemonic.ofText? statement.mnemonic.text | return none
    let span := statement.mnemonic.span n
    if (Number.whole span.col).le col && col.le (.whole span.stopCol) then return some (m, span)
    else return none

def hover (id uri position : Json) : Handler Unit := do
  match ← (← server).find? uri with
  | none => respond id .null
  | some doc =>
    let s ← doc.source?
    match ← hoverAt s position with
    | none => respond id .null
    | some (m, span) =>
      let asTruth := (← position.field "line").isBool
      let range ← span.toJson s asTruth
      respond id (.obj
        [("contents", .obj [("kind", .str "markdown"), ("value", .str (hoverText m))]),
          ("range", range)])

end Session

end LittleMan
