import LittleMan.Json.Printer
import LittleMan.Protocol.Exchange
import LittleMan.Protocol.Settings

/-! What a language server knows: its client's abilities, the open documents and the requests it waits
for. -/

namespace LittleMan

/-- An open document. The client names it by any scalar, and may send a text that is none; such a
document cannot be analysed. -/
structure Document where
  uri : Json
  text : Json
  version : Json := .null
  /-- The settings of this document, once the client has sent them. -/
  settings : Option Settings := none
  deriving DecidableEq, Repr

namespace Document

def name (uri : Json) : Text := if uri.isEmpty then anonymous else uri.keyText

def source? (doc : Document) : Except Fault Source :=
  match doc.text with
  | .str text => .ok { name := name doc.uri, text := text.toList }
  | _ => .error .wrongShape

def items (doc : Document) (common : Settings) : Except Fault (List Json) := do
  let s ← doc.source?
  let a ← analyze s
  (a.diagnostics.take (doc.settings.getD common).limit).mapM (·.toJson s)

end Document

structure Server where
  initialized : Bool := false
  shutdown : Bool := false
  exited : Bool := false
  /-- The client answers requests for settings. -/
  asksSettings : Bool := false
  hasFolders : Bool := false
  /-- The open documents; a name occurs once. -/
  documents : List Document := []
  /-- The settings of documents that have none of their own. -/
  settings : Settings := {}
  /-- The numbers of the requests for settings that wait for an answer, and their documents. -/
  pending : List (Nat × Json) := []
  lastRequest : Nat := 0
  deriving DecidableEq, Repr

namespace Server

/-- The open document of a name. Only a scalar can name one. -/
def find? (server : Server) (uri : Json) : Except Fault (Option Document) :=
  uri.requireScalar.map fun _ => server.documents.find? fun d => d.uri.same uri

def putDocument (doc : Document) : List Document → List Document
  | [] => [doc]
  | d :: rest => if d.uri.same doc.uri then doc :: rest else d :: putDocument doc rest

def update (server : Server) (uri : Json) (f : Document → Document) : Server :=
  { server with documents := server.documents.map fun d => if d.uri.same uri then f d else d }

def close (server : Server) (uri : Json) : Server :=
  { server with documents := server.documents.filter fun d => !d.uri.same uri }

end Server

end LittleMan
