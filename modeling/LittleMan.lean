import LittleMan.Analysis
import LittleMan.Catalog.Distance
import LittleMan.Catalog.Mnemonic
import LittleMan.Catalog.Suggestion
import LittleMan.CommandLine.Command
import LittleMan.CommandLine.Options
import LittleMan.CommandLine.Program
import LittleMan.Decimal.Double
import LittleMan.Decimal.Integer
import LittleMan.Decimal.Number
import LittleMan.Decimal.Shortest
import LittleMan.Description
import LittleMan.Diagnostic
import LittleMan.Edit
import LittleMan.Fault
import LittleMan.FileTree
import LittleMan.Json.Basic
import LittleMan.Json.Display
import LittleMan.Json.Printer
import LittleMan.Json.Reader
import LittleMan.LabelTable
import LittleMan.Log
import LittleMan.Main
import LittleMan.Numeral
import LittleMan.Operand
import LittleMan.Proofs.Catalog.EditScripts
import LittleMan.Proofs.CommandLine.FileChecks
import LittleMan.Proofs.Dependence
import LittleMan.Proofs.Findings
import LittleMan.Proofs.FirstDefinitions
import LittleMan.Proofs.Grammar
import LittleMan.Proofs.Insertion
import LittleMan.Proofs.LabelCreation
import LittleMan.Proofs.LabelFix
import LittleMan.Proofs.Labels
import LittleMan.Proofs.LineByLine
import LittleMan.Proofs.LineGrammar
import LittleMan.Proofs.Locality
import LittleMan.Proofs.Logging
import LittleMan.Proofs.LongNumerals
import LittleMan.Proofs.MarkedWords
import LittleMan.Proofs.MnemonicFix
import LittleMan.Proofs.Notation
import LittleMan.Proofs.NumeralReadings
import LittleMan.Proofs.OperandFix
import LittleMan.Proofs.Proposals
import LittleMan.Proofs.Protocol.ActionEdits
import LittleMan.Proofs.Protocol.RoundTrip
import LittleMan.Proofs.Rearrangement
import LittleMan.Proofs.ReportOrder
import LittleMan.Proofs.Session.Acts
import LittleMan.Proofs.Session.Answers
import LittleMan.Proofs.Session.Bookkeeping
import LittleMan.Proofs.Session.ClientView
import LittleMan.Proofs.Session.ConfinedActions
import LittleMan.Proofs.Session.Consistent
import LittleMan.Proofs.Session.DocumentHistory
import LittleMan.Proofs.Session.Endings
import LittleMan.Proofs.Session.FileDiagnostics
import LittleMan.Proofs.Session.Grants
import LittleMan.Proofs.Session.HintTitles
import LittleMan.Proofs.Session.HoverTargets
import LittleMan.Proofs.Session.Isolation
import LittleMan.Proofs.Session.LastAnswer
import LittleMan.Proofs.Session.Lifecycle
import LittleMan.Proofs.Session.Mirror
import LittleMan.Proofs.Session.RangedActions
import LittleMan.Proofs.Session.Refusals
import LittleMan.Proofs.Session.Resynchronization
import LittleMan.Proofs.Session.ReturnedDiagnostics
import LittleMan.Proofs.Session.SingleReply
import LittleMan.Proofs.Session.Termination
import LittleMan.Proofs.TemplateInsertion
import LittleMan.Proofs.Text.ColumnAdjunction
import LittleMan.Proofs.Text.LineCuts
import LittleMan.Proofs.Text.Splice
import LittleMan.Proofs.WellFormed
import LittleMan.Protocol.Exchange
import LittleMan.Protocol.Position
import LittleMan.Protocol.Settings
import LittleMan.Protocol.Uri
import LittleMan.QuickFix
import LittleMan.Record
import LittleMan.Report
import LittleMan.Session.Documents
import LittleMan.Session.Frame
import LittleMan.Session.Handler
import LittleMan.Session.Receive
import LittleMan.Session.Requests
import LittleMan.Session.Server
import LittleMan.Session.Transcript
import LittleMan.Source
import LittleMan.Template
import LittleMan.Text.Blank
import LittleMan.Text.Digit
import LittleMan.Text.Hex
import LittleMan.Text.Lines
import LittleMan.Text.Printable
import LittleMan.Text.Quoted
import LittleMan.Text.Slice
import LittleMan.Text.Units
