import LittleMan.Json.Display
import LittleMan.QuickFix

/-! Diagnostics and proposals as they are printed, in colour and with the line in question. -/

namespace LittleMan

namespace Severity

def colour : Severity → Text
  | hint => "\x1b[35m"
  | error => "\x1b[31m"

def title : Severity → Text
  | hint => "Hint"
  | error => "Error"

end Severity

namespace Report

/-- Where a message without a place is said to come from. -/
def nowhere : Text := anonymous ++ ":?"

def headline (severity : Severity) (place message : Text) : Text :=
  severity.colour ++ severity.title ++ " " ++ place ++ ": " ++ message ++ "\x1b[0m\n"

/-- A message about a span, with the line below it if wanted. -/
def message (severity : Severity) (text : Text) (s : Source) (span : Span) (withLine : Bool) :
    Except Fault Text := do
  let place ← s.place span
  let lines ← if withLine then s.view span else .ok ""
  return headline severity place text ++ lines

def diagnostic (s : Source) (labels : LabelTable) (hints : Bool) (d : Diagnostic) :
    Except Fault Text := do
  let head ← message d.severity d.message.display s d.span true
  if !hints then return head
  let actions ← proposeActions s (some labels) [d] fun _ => true
  let hints ← actions.mapM fun a => message .hint a.title s d.span false
  return head ++ Text.join hints

def diagnostics (s : Source) (labels : LabelTable) (hints : Bool) :
    List Diagnostic → Except Fault Text
  | [] => .ok ""
  | d :: rest => do
    let here ← diagnostic s labels hints d
    let later ← diagnostics s labels hints rest
    return here ++ later

def check (s : Source) (hints : Bool) : Except Fault (Text × Bool) := do
  let a ← analyze s
  let text ← diagnostics s a.labels hints a.diagnostics
  return (text, a.diagnostics.isEmpty)

end Report

end LittleMan
