import LittleMan.Analysis
import LittleMan.Edit
import LittleMan.Template

/-! Proposals to mend what a diagnostic reports, and templates for blank documents. -/

namespace LittleMan

structure Action where
  title : Text
  uri : Text
  edits : List Edit
  diagnostics : List Diagnostic := []
  deriving DecidableEq, Repr

def Action.kind : Text := "quickfix"

namespace QuickFix

def newLastLine (s : Source) (text : List CodePoint) : Edit :=
  if (s.lines.getLast s.lines_ne_nil).isEmpty then Edit.insert s.atEnd.start (text ++ [.scalar '\n'])
  else Edit.insert s.atEnd.start (.scalar '\n' :: text)

/-- Whether the record on a line has a mnemonic that takes a place in the code. -/
def isBranchLine (records : List Record) (line : Int) : Bool :=
  ((records.find? fun r => r.line = line).bind fun r => Mnemonic.ofText? r.mnemonic.text).any
    Mnemonic.isBranch

/-- Defines a label that is missing. Branches get a label in the code, above the data; all else gets
a mailbox at the end. -/
def createLabel (s : Source) (records : List Record) (labels : LabelTable) (d : Diagnostic) :
    Option (Text × Edit) :=
  let label := d.token
  if labels.contains label || !isIdentifier label then none
  else if isBranchLine records d.span.line then
    let title := "Create code label '" ++ Text.ofList label ++ "'"
    match records.find? (·.isMnemonic .dat) with
    | some r => some (title, Edit.insert ⟨r.line, 0⟩ (label ++ Text.toList "\tHLT\n\n"))
    | none => some (title, newLastLine s (label ++ Text.toList "\tHLT\n"))
  else
    some ("Create data label '" ++ Text.ofList label ++ "'",
      newLastLine s (label ++ Text.toList "\tDAT 0"))

/-- The mnemonics that a diagnostic proposes; a client may propose what is none. -/
def proposed (d : Diagnostic) : List Mnemonic :=
  d.candidates.filterMap fun
    | .str name => Mnemonic.ofText? name.toList
    | _ => none

def replacement (d : Diagnostic) (text : List CodePoint) : Edit :=
  { Edit.replace d.span text with lineAsTruth := d.lineAsTruth }

def addition (d : Diagnostic) (text : List CodePoint) : Edit :=
  { Edit.insert d.span.stop text with lineAsTruth := d.lineAsTruth }

def fixes (s : Source) (records : List Record) (labels : LabelTable) (d : Diagnostic) :
    Except Fault (List (Text × Edit)) :=
  match d.kind with
  | .numericNeedsHash =>
    .ok [("Prefix with '#': #" ++ Text.ofList d.token, replacement d (.scalar '#' :: d.token))]
  | .missingOperand =>
    .ok (if d.token = Mnemonic.dat.text then
      [("Add operand 0", addition d [' ', '0'])] else [])
  | .immediateOutOfRange | .numericOutOfRange | .incompleteImmediate =>
    .ok [("Replace with #0", replacement d ['#', '0'])]
  | .undefinedLabel | .undefinedLabelReference => .ok (createLabel s records labels d).toList
  | .invalidInstruction => do
    let chosen ← match proposed d with
      | [] => (s.textAt d.span).map suggestions
      | m :: ms => .ok (m :: ms)
    return chosen.map fun m => ("Change to " ++ m.name, replacement d m.text)
  | .duplicateLabel | .datOperandInvalid => .ok []

def actions (s : Source) (records : List Record) (labels : LabelTable) (d : Diagnostic) :
    Except Fault (List Action) :=
  (fixes s records labels d).map fun fs =>
    fs.map fun (title, edit) => { title, uri := s.name, edits := [edit], diagnostics := [d] }

def templateOffers (s : Source) : List Action :=
  if s.isBlank then
    Template.all.map fun t =>
      { title := "Insert template: " ++ t.name, uri := s.name
        edits := [Edit.insert ⟨0, 0⟩ t.text] }
  else []

/-- Diagnostics that this library reports, among those of other tools. -/
def isOwn (d : Diagnostic) : Bool := d.source = .str "LMC"

def allActions (s : Source) (records : List Record) (labels : LabelTable) :
    List Diagnostic → Except Fault (List Action)
  | [] => .ok []
  | d :: rest => do
    let here ← actions s records labels d
    let later ← allActions s records labels rest
    return here ++ later

end QuickFix

/-- The actions for those of the diagnostics that are this library's own and wanted, followed by the
templates. Without a table the labels are those of the text. -/
def proposeActions (s : Source) (labels : Option LabelTable) (ds : List Diagnostic)
    (wanted : Span → Bool) : Except Fault (List Action) := do
  let records := s.records
  let table := labels.getD (LabelTable.ofRecords records)
  let own := ds.filter fun d => QuickFix.isOwn d && wanted d.span
  let found ← QuickFix.allActions s records table own
  return found ++ QuickFix.templateOffers s

end LittleMan
