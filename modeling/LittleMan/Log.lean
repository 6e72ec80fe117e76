import LittleMan.Analysis

/-! The log of an analysis. A diagnostic is written into it when it is found, and a listener hears it at once;
what is written before the analysis fails stays written. -/

namespace LittleMan

/-- The diagnostics written so far, and what a listener has made of them. -/
structure Log (σ : Type) where
  diagnostics : List Diagnostic := []
  heard : σ
  deriving DecidableEq, Repr

namespace Log

variable {σ : Type} (hear : σ → Diagnostic → σ)

def write (log : Log σ) (d : Diagnostic) : Log σ :=
  { diagnostics := log.diagnostics ++ [d], heard := hear log.heard d }

def writeAll (log : Log σ) (ds : List Diagnostic) : Log σ := ds.foldl (write hear) log

def enterLabel : LabelTable × Log σ → Record → LabelTable × Log σ
  | (labels, log), r =>
    match r.label with
    | some w =>
      if labels.contains w.text then
        (labels, log.write hear
          (report .duplicateLabel ("Duplicate label: " ++ Text.ofList w.text) r.line w))
      else (labels.define w.text (some (w.span r.line)), log)
    | none => (labels, log)

def enterLabels (log : Log σ) (records : List Record) : LabelTable × Log σ :=
  records.foldl (enterLabel hear) (.empty, log)

def inspectRecord (labels : LabelTable) (log : Log σ) (r : Record) : Log σ × Except Fault Unit :=
  let log := log.writeAll hear (Analysis.inspectMnemonic r)
  match Analysis.inspectArgument labels r with
  | .ok ds => (log.writeAll hear ds, .ok ())
  | .error e => (log, .error e)

def inspectRecords (labels : LabelTable) (log : Log σ) : List Record → Log σ × Except Fault Unit
  | [] => (log, .ok ())
  | r :: rest =>
    match inspectRecord hear labels log r with
    | (log, .ok _) => inspectRecords labels log rest
    | (log, .error e) => (log, .error e)

/-- The analysis of a text into a log. -/
def analyze (log : Log σ) (s : Source) : Log σ × Except Fault Analysis :=
  let records := s.records
  let (labels, log) := log.enterLabels hear records
  match inspectRecords hear labels log records with
  | (log, .ok _) => (log, .ok ⟨log.diagnostics, labels, records⟩)
  | (log, .error e) => (log, .error e)

end Log

end LittleMan
