import LittleMan.QuickFix
import LittleMan.Json.Display

/-! Values of the library described on one line, as a log shows them. -/

namespace LittleMan

def describeWord : Option Word → Text
  | some w => quoted w.text
  | none => Json.null.describe

def Record.describe (r : Record) : Text :=
  "SourceLine(" ++ toString r.line ++ ", " ++ describeWord r.label ++ ", " ++
    quoted r.mnemonic.text ++ ", " ++ describeWord r.operand ++ ")"

def Span.describe (s : Source) (span : Span) : Text :=
  "Location(file <" ++ quoted s.name.toList ++ ">, " ++ toString span.line ++ ", " ++
    toString span.col ++ ", " ++ toString span.len ++ ")"

def Diagnostic.describe (s : Source) (d : Diagnostic) : Text :=
  "Diagnostic(DiagKind." ++ d.kind.name ++ ", " ++ d.message.describe ++ ", " ++
    d.span.describe s ++ ")"

def Position.describe (p : Position) : Text :=
  "(" ++ toString p.line ++ ", " ++ toString p.col ++ ")"

def Edit.describe (e : Edit) : Text :=
  "TextEdit(" ++ e.start.describe ++ ", " ++ e.stop.describe ++ ", " ++ quoted e.text ++ ")"

def Action.describe (a : Action) : Text :=
  "CodeAction(" ++ quoted a.title.toList ++ ", \x7b" ++ quoted a.uri.toList ++ ": [" ++
    Text.intercalate ", " (a.edits.map (·.describe)) ++ "]\x7d)"

def Completion.describe (e : Completion) : Text :=
  "CompletionEntry(" ++ quoted e.label.toList ++ ", " ++ quoted e.detail.toList ++ ")"

end LittleMan
