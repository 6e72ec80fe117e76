import LittleMan.Protocol.Position
import LittleMan.QuickFix

/-! Diagnostics, actions and completions as protocol objects, and diagnostics read back from what a
client returns. The token of a returned diagnostic is taken from the document, not from the client. -/

namespace LittleMan

def Severity.number : Severity → Int
  | .hint => 4
  | .error => 1

namespace Diagnostic

def object (d : Diagnostic) (range : Json) : Json :=
  .obj
    [("range", range),
      ("severity", .int d.severity.number),
      ("message", d.message),
      ("source", d.source),
      ("code", .str d.kind.code),
      ("data", .obj [("token", .str (Text.ofList d.token)), ("candidates", .arr d.candidates)])]

def toJson (s : Source) (d : Diagnostic) : Except Fault Json :=
  (d.span.toJson s d.lineAsTruth).map d.object

/-- The token of a diagnostic on the given text: a reference is named without its `@`. -/
def tokenOf (kind : Kind) (text : List CodePoint) : List CodePoint :=
  match kind, text with
  | .undefinedLabelReference, .scalar '@' :: label => label
  | _, _ => text

def candidatesOf (data : Option Json) : List Json :=
  match data with
  | some (.obj fields) =>
    match Json.lookup "candidates" fields with
    | some (.arr items) => items
    | _ => []
  | _ => []

def kindOf? (code : Option Json) : Option Kind :=
  match code with
  | some (.str s) => Kind.ofCode? s
  | _ => none

/-- The diagnostic on a range of one line of the text, rebuilt from the fields a client returned. -/
def rebuild (s : Source) (kind : Kind) (fields : List (Text × Json)) (start stop : Point) :
    Except Fault (Option Diagnostic) :=
  match start.line, stop.line with
  | .whole line, .whole stopLine =>
    if line ≠ stopLine ∨ !s.hasLine line then .ok none
    else
      match start.col, stop.col with
      | .whole col, .whole stopCol =>
        .ok (some
          { kind
            message := (Json.lookup "message" fields).getD (.str "")
            span := ⟨line, col, stopCol - col⟩
            token := tokenOf kind (slice (s.columnText line) col stopCol)
            candidates := candidatesOf (Json.lookup "data" fields)
            source := (Json.lookup "source" fields).getD .null
            lineAsTruth := start.lineAsTruth })
      | .whole n, .real _ | .real _, .whole n =>
        .error (if Double.tooLarge n then .sizeOverflow else .wrongShape)
      | .real _, .real _ => .error .wrongShape
  | _, _ => .ok none

/-- The diagnostic that a client returns, if its code is known and its range is part of one line. -/
def ofJson? (s : Source) (v : Json) : Except Fault (Option Diagnostic) :=
  match v with
  | .obj fields =>
    match kindOf? (Json.lookup "code" fields) with
    | none => .ok none
    | some kind => do
      let (start, stop) ← Point.rangeOfJson s (← v.field "range")
      rebuild s kind fields start stop
  | _ => .error .notAnObject

end Diagnostic

def Edit.object (e : Edit) (range : Json) : Json :=
  .obj [("range", range), ("newText", .str (Text.ofList e.text))]

def Edit.toJson (s : Source) (e : Edit) : Except Fault Json :=
  (rangeJson s e.start e.stop e.lineAsTruth).map e.object

def Action.object (a : Action) (diagnostics edits : List Json) : Json :=
  .obj
    [("title", .str a.title),
      ("kind", .str Action.kind),
      ("diagnostics", .arr diagnostics),
      ("edit", .obj [("changes", .obj [(a.uri, .arr edits)])])]

def Action.toJson (s : Source) (a : Action) : Except Fault Json := do
  let diagnostics ← a.diagnostics.mapM (·.toJson s)
  let edits ← a.edits.mapM (·.toJson s)
  return a.object diagnostics edits

/-- Completion items are keywords, number 14 of the protocol. -/
def Completion.toJson (e : Completion) : Json :=
  .obj [("label", .str e.label), ("kind", .int 14), ("data", .str e.label)]

end LittleMan
