import LittleMan.Catalog.Suggestion
import LittleMan.Diagnostic
import LittleMan.LabelTable

/-! The analysis of a program: all labels first, so that a reference may stand before its label, then
each record on its own. It fails only on a decimal numeral that is too long to be read. -/

namespace LittleMan

/-- A diagnostic on a word of a record. The token is the word itself, which is also the text that stands
under the span (`textAt_report`). -/
def report (kind : Kind) (message : Text) (line : Nat) (w : Word) : Diagnostic :=
  { kind, message := .str message, span := w.span line, token := w.text }

namespace Analysis

def rangeRule : Text := "value must be between 0 and " ++ toString Numeral.maxValue

def hasValue (t : List CodePoint) : Except Fault Bool :=
  match Numeral.read t with
  | .ok _ => .ok true
  | .error .tooManyDigits => .error .tooManyDigits
  | .error _ => .ok false

def inspectValue (t : List CodePoint) (d : Diagnostic) : Except Fault (List Diagnostic) :=
  (hasValue t).map fun ok => if ok then [] else [d]

def immediateOutOfRange (line : Nat) (w : Word) : Diagnostic :=
  report .immediateOutOfRange ("Immediate " ++ rangeRule) line w

def numericOutOfRange (line : Nat) (w : Word) : Diagnostic :=
  report .numericOutOfRange ("Numeric " ++ rangeRule) line w

/-- The operand of `DAT`: a numeral, an immediate value or a label. -/
def inspectData (labels : LabelTable) (line : Nat) (w : Word) : Except Fault (List Diagnostic) :=
  match addressing w.text with
  | .immediate => inspectValue (w.text.drop 1) (immediateOutOfRange line w)
  | .numeric => inspectValue w.text (numericOutOfRange line w)
  | _ =>
    .ok (if labels.contains w.text then []
      else [report .datOperandInvalid
        "DAT operand must be a number, a label, or an immediate value prefixed with '#'" line w])

/-- The operand of any other mnemonic: an immediate value, or a label with or without `@`. -/
def inspectOperand (labels : LabelTable) (mnemonic : List CodePoint) (line : Nat) (w : Word) :
    Except Fault (List Diagnostic) :=
  match addressing w.text with
  | .numeric =>
    (hasValue w.text).map fun ok =>
      if ok then
        [report .numericNeedsHash ("Numeric value " ++ Text.ofList w.text ++
          " must be prefixed with '#' for immediate addressing") line w]
      else [numericOutOfRange line w]
  | .immediate =>
    if w.text.length ≤ 1 then
      .ok [report .incompleteImmediate ("'" ++ Text.ofList mnemonic ++ "' operand '" ++
        Text.ofList w.text ++ "' is incomplete. A value must follow '#'") line w]
    else inspectValue (w.text.drop 1) (immediateOutOfRange line w)
  | .indirect =>
    let label := w.text.drop 1
    .ok (if labels.contains label then []
      else [{ report .undefinedLabelReference ("Undefined label reference: " ++
        Text.ofList label) line w with token := label }])
  | .direct =>
    .ok (if labels.contains w.text then []
      else [report .undefinedLabel ("Undefined label: " ++ Text.ofList w.text) line w])

def inspectMnemonic (r : Record) : List Diagnostic :=
  match Mnemonic.ofText? r.mnemonic.text with
  | some _ => []
  | none =>
    [{ report .invalidInstruction ("Invalid instruction: " ++ Text.ofList r.mnemonic.text) r.line
        r.mnemonic with
      candidates := (suggestions r.mnemonic.text).map fun m => .str m.name }]

/-- What is wrong with the operand of a record, or with the lack of one. A word that is no mnemonic
needs an operand. -/
def inspectArgument (labels : LabelTable) (r : Record) : Except Fault (List Diagnostic) :=
  match Mnemonic.ofText? r.mnemonic.text, r.operand with
  | some .inp, _ | some .out, _ | some .hlt, _ => .ok []
  | some .dat, none => .ok []
  | some .dat, some w => inspectData labels r.line w
  | _, some w => inspectOperand labels r.mnemonic.text r.line w
  | _, none =>
    .ok [report .missingOperand ("Instruction " ++ Text.ofList r.mnemonic.text ++
      " requires an operand") r.line r.mnemonic]

def inspectRecord (labels : LabelTable) (r : Record) : Except Fault (List Diagnostic) :=
  (inspectArgument labels r).map (inspectMnemonic r ++ ·)

def inspectRecords (labels : LabelTable) : List Record → Except Fault (List Diagnostic)
  | [] => .ok []
  | r :: rest => do
    let here ← inspectRecord labels r
    let later ← inspectRecords labels rest
    return here ++ later

/-- One diagnostic for every definition of a label but the first. -/
def duplicates (records : List Record) : List Diagnostic :=
  (repeatedLabels .empty records).map fun (line, w) =>
    report .duplicateLabel ("Duplicate label: " ++ Text.ofList w.text) line w

end Analysis

structure Analysis where
  diagnostics : List Diagnostic
  labels : LabelTable
  records : List Record
  deriving DecidableEq, Repr

/-- The analysis of a text, its diagnostics after those found before. Repeated labels come first, then
the records in order. -/
def analyzeAfter (found : List Diagnostic) (s : Source) : Except Fault Analysis :=
  let records := s.records
  let labels := LabelTable.ofRecords records
  (Analysis.inspectRecords labels records).map fun ds =>
    ⟨found ++ Analysis.duplicates records ++ ds, labels, records⟩

def analyze (s : Source) : Except Fault Analysis := analyzeAfter [] s

end LittleMan
