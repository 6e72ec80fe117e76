import LittleMan.CommandLine.Program
import LittleMan.Proofs.Numbering
import LittleMan.Proofs.Proposals

/-! Texts that differ in their line breaks only. They have the same lines, so the same is reported about
them, and the same fixes are proposed. -/

namespace LittleMan

section

variable {p : CodePoint → Bool}

theorem all_linesOf (hr : p (.scalar '\r') = true) (hn : p (.scalar '\n') = true) (t : List CodePoint) :
    (linesOf t).all (·.all p) = t.all p := by
  fun_induction linesOf t with
  | case1 => rfl
  | case2 rest ih => simp [hr, hn, ih]
  | case3 c rest hne hc ih => rcases hc with rfl | rfl <;> simp [hr, hn, ih]
  | case4 c rest hne hc he ih => exact absurd he (linesOf_ne_nil rest)
  | case5 c rest hne hc line lines he ih =>
    rw [he] at ih
    simp only [List.all_cons, ← ih, Bool.and_assoc]

theorem all_joinLines (hn : p (.scalar '\n') = true) (lines : List (List CodePoint)) :
    (joinLines lines).all p = lines.all (·.all p) := by
  induction lines with
  | nil => rfl
  | cons line rest ih =>
    cases rest with
    | nil => simp [joinLines]
    | cons next others => simp [joinLines, hn, ih]

end

theorem all_isBlank_normalizeBreaks (t : List CodePoint) :
    (normalizeBreaks t).all isBlank = t.all isBlank := by
  rw [normalizeBreaks, all_joinLines (by decide), all_linesOf (by decide) (by decide)]

section

variable {s s' : Source}

namespace Report

theorem message_congr (hlines : s'.lines = s.lines) (hname : s'.name = s.name)
    (severity : Severity) (text : Text) (span : Span) (withLine : Bool) :
    message severity text s' span withLine = message severity text s span withLine := by
  simp only [message, Source.place, Source.view, hlines, hname]

theorem diagnostics_congr (hlines : s'.lines = s.lines) (hname : s'.name = s.name)
    (hblank : s'.isBlank = s.isBlank) (labels : LabelTable) (hints : Bool)
    (ds : List Diagnostic) : diagnostics s' labels hints ds = diagnostics s labels hints ds := by
  induction ds with
  | nil => rfl
  | cons d ds ih =>
    simp only [diagnostics, diagnostic, ih, message_congr hlines hname,
      proposeActions_congr hlines hname hblank]

theorem check_normalizeBreaks (name : Option Text) (t : List CodePoint) (hints : Bool) :
    check (Source.named name (normalizeBreaks t)) hints = check (Source.named name t) hints := by
  have hlines : (Source.named name (normalizeBreaks t)).lines = (Source.named name t).lines :=
    linesOf_normalizeBreaks t
  have hblank : (Source.named name (normalizeBreaks t)).isBlank = (Source.named name t).isBlank :=
    all_isBlank_normalizeBreaks t
  have hname : (Source.named name (normalizeBreaks t)).name = (Source.named name t).name := rfl
  simp only [check, analyze_congr hlines, diagnostics_congr hlines hname hblank]

end Report

end

end LittleMan
