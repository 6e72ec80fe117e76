import LittleMan.Json.Basic
import LittleMan.Source

/-! Diagnostics. -/

namespace LittleMan

inductive Kind where
  | duplicateLabel
  | invalidInstruction
  | immediateOutOfRange
  | numericOutOfRange
  | missingOperand
  | undefinedLabel
  | undefinedLabelReference
  | numericNeedsHash
  | incompleteImmediate
  | datOperandInvalid
  deriving DecidableEq, Repr

namespace Kind

def all : List Kind :=
  [duplicateLabel, invalidInstruction, immediateOutOfRange, numericOutOfRange, missingOperand,
    undefinedLabel, undefinedLabelReference, numericNeedsHash, incompleteImmediate,
    datOperandInvalid]

def code : Kind → Text
  | duplicateLabel => "DuplicateLabel"
  | invalidInstruction => "InvalidInstruction"
  | immediateOutOfRange => "ImmediateOutOfRange"
  | numericOutOfRange => "NumericOutOfRange"
  | missingOperand => "MissingOperand"
  | undefinedLabel => "UndefinedLabel"
  | undefinedLabelReference => "UndefinedLabelReference"
  | numericNeedsHash => "NumericNeedsHash"
  | incompleteImmediate => "IncompleteImmediate"
  | datOperandInvalid => "DatOperandInvalid"

def name : Kind → Text
  | duplicateLabel => "DUPLICATE_LABEL"
  | invalidInstruction => "INVALID_INSTRUCTION"
  | immediateOutOfRange => "IMMEDIATE_OUT_OF_RANGE"
  | numericOutOfRange => "NUMERIC_OUT_OF_RANGE"
  | missingOperand => "MISSING_OPERAND"
  | undefinedLabel => "UNDEFINED_LABEL"
  | undefinedLabelReference => "UNDEFINED_LABEL_REFERENCE"
  | numericNeedsHash => "NUMERIC_NEEDS_HASH"
  | incompleteImmediate => "INCOMPLETE_IMMEDIATE"
  | datOperandInvalid => "DAT_OPERAND_INVALID"

def ofCode? (s : Text) : Option Kind := all.find? fun k => k.code = s

theorem ofCode?_code (k : Kind) : ofCode? k.code = some k := by cases k <;> decide

end Kind

inductive Severity where
  | hint
  | error
  deriving DecidableEq, Repr

def Severity.name : Severity → Text
  | hint => "HINT"
  | error => "ERROR"

/-- One thing that is wrong with a text. A client that sends a diagnostic back may put any value for
the message, the candidates and the source, and gets them and the line back as it wrote them. -/
structure Diagnostic where
  kind : Kind
  message : Json
  span : Span
  token : List CodePoint
  candidates : List Json := []
  severity : Severity := .error
  source : Json := .str "LMC"
  /-- A client sent the line, which is 0 or 1, as a truth value. -/
  lineAsTruth : Bool := false
  deriving DecidableEq, Repr

namespace Diagnostic

/-- Whether two diagnostics say the same, whoever says it and however gravely. -/
def sameContent (a b : Diagnostic) : Bool :=
  a.kind = b.kind ∧ a.message.same b.message ∧ a.span = b.span ∧ a.token = b.token ∧
    Json.sameItems a.candidates b.candidates

def isError (d : Diagnostic) : Bool := d.severity == .error

end Diagnostic

end LittleMan
