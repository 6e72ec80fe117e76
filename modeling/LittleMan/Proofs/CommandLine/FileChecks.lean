import LittleMan.Proofs.CommandLine.CheckLine
import LittleMan.Proofs.CommandLine.PrintedLines
import LittleMan.Proofs.Protocol.ActionEdits

/-! The check of several files. Each of them is checked as if it were the only one: the output is what is printed
about each in turn, nothing is wrong with all of them just if nothing is wrong with each, and hints only add
lines of their own. -/

namespace LittleMan

/-- A file that can be read, and in whose text nothing is wrong. -/
def FileTree.IsClean (files : FileTree) (path : String) : Prop :=
  ∃ text a, files.read path = .ok text ∧ analyze (Source.named none text) = .ok a ∧ a.diagnostics = []

namespace Program

variable {files : FileReader} {hints clean : Bool} {path : String} {out : Text}
  {paths : List String}

theorem unbroken_baseName (h : Unbroken path) : Unbroken (baseName path) := by
  intro hmem
  obtain ⟨c, hc, heq⟩ := List.mem_map.1 hmem
  rw [baseName, String.toList_ofList] at hc
  have hprefix := (List.takeWhile_prefix (· != '/')).subset (List.mem_reverse.1 hc)
  exact h (List.mem_map.2 ⟨c, List.mem_reverse.1 hprefix, heq⟩)

theorem reportFiles_cons_ok_iff : reportFiles files hints (path :: paths) = (out, .ok clean) ↔
    ∃ text c later rest, reportFile files hints path = .ok (text, c) ∧
      reportFiles files hints paths = (later, .ok rest) ∧ out = text ++ later ∧ clean = (c && rest) := by
  rw [reportFiles]
  cases hhere : reportFile files hints path with
  | error e => simp
  | ok r =>
    obtain ⟨text, c⟩ := r
    rcases hlater : reportFiles files hints paths with ⟨later, rest | rest⟩
    · simp [Except.map]
    · simp only [Except.map, Prod.mk.injEq, Except.ok.injEq]
      constructor
      · rintro ⟨rfl, rfl⟩
        exact ⟨text, c, later, rest, ⟨rfl, rfl⟩, ⟨rfl, rfl⟩, rfl, rfl⟩
      · rintro ⟨_, _, _, _, ⟨rfl, rfl⟩, ⟨rfl, rfl⟩, rfl, rfl⟩
        exact ⟨rfl, rfl⟩

theorem exists_quiet_reportFile (h : reportFile files hints path = .ok (out, clean)) :
    ∃ quiet, reportFile files false path = .ok (quiet, clean) ∧
      LeavesOutHints out quiet (Unbroken path) := by
  unfold reportFile at h ⊢
  split at h
  · next text htext =>
    obtain ⟨quiet, hquiet, hleaves⟩ := Report.exists_quiet_check h
    refine ⟨quiet, hquiet, hleaves.mono fun hp => ?_⟩
    rw [Source.named, Option.filter]
    split
    · exact unbroken_baseName hp
    · exact (by decide : Unbroken anonymous)
  · obtain ⟨rfl, rfl⟩ := Prod.mk.inj (Except.ok.inj h)
    rw [← Printed.text_missing]
    exact ⟨_, rfl, .of_kept rfl Printed.isPlain_missing⟩
  · cases h

theorem exists_quiet_reportFiles (h : reportFiles files hints paths = (out, .ok clean)) :
    ∃ quiet, reportFiles files false paths = (quiet, .ok clean) ∧
      LeavesOutHints out quiet (∀ p ∈ paths, Unbroken p) := by
  induction paths generalizing out clean with
  | nil =>
    obtain ⟨rfl, -⟩ := Prod.mk.inj h
    exact ⟨"", h, .empty⟩
  | cons p paths ih =>
    obtain ⟨text, c, later, rest, hhere, hlater, rfl, rfl⟩ := reportFiles_cons_ok_iff.1 h
    obtain ⟨quiet, hquiet, hleaves⟩ := exists_quiet_reportFile hhere
    obtain ⟨quiet', hquiet', hleaves'⟩ := ih hlater
    refine ⟨quiet ++ quiet', reportFiles_cons_ok_iff.2 ⟨_, _, _, _, hquiet, hquiet', rfl, rfl⟩, ?_⟩
    exact (hleaves.mono fun hp => hp p List.mem_cons_self).append
      (hleaves'.mono fun hp q hq => hp q (List.mem_cons_of_mem _ hq))

theorem isClean_iff {files : FileTree} {path : String} (hints : Bool) :
    files.IsClean path ↔ ∃ text, reportFile files.read hints path = .ok (text, true) := by
  have hname : ∀ text, analyze (Source.named (some (baseName path)) text) =
      analyze (Source.named none text) := fun text => analyze_named (Source.named none text) _
  constructor
  · rintro ⟨text, a, htext, ha, hnone⟩
    refine ⟨"", ?_⟩
    simp only [reportFile, htext]
    refine Report.check_ok_iff.2 ⟨a, (hname text).trans ha, ?_, ?_⟩
    · rw [hnone]
      rfl
    · rw [hnone]
      rfl
  · rintro ⟨printed, h⟩
    unfold reportFile at h
    split at h
    · next text htext =>
      obtain ⟨a, ha, -, hempty⟩ := Report.check_ok_iff.1 h
      exact ⟨text, a, htext, (hname text).symm.trans ha, List.isEmpty_iff.1 hempty.symm⟩
    · exact absurd (Prod.mk.inj (Except.ok.inj h)).2 (by decide)
    · cases h

/-- The run that checks one file and nothing else. -/
def runAlone (files : FileTree) (hints : Bool) (input : List UInt8) (path : String) : Outcome :=
  run files (Command.checkLine [path] hints) input

section

variable {files : FileTree} {argv : List String} {input : List UInt8} {n : Nat}

theorem stdout_of_check (h : Command.ofArguments argv = .check paths hints) :
    (run files argv input).stdout = (reportFiles files.read hints paths).1 := by
  rw [run, h]

theorem status_of_check (h : Command.ofArguments argv = .check paths hints) :
    (run files argv input).status = .ok n ↔
      ∃ clean, (reportFiles files.read hints paths).2 = .ok clean ∧ n = if clean then 0 else 1 := by
  rw [run, h]
  cases hresult : (reportFiles files.read hints paths).2 with
  | error e => simp [Except.map, hresult]
  | ok clean => simp [Except.map, hresult, eq_comm]

theorem ofArguments_alone (path : String) (hints : Bool) :
    Command.ofArguments (Command.checkLine [path] hints) = .check [path] hints :=
  Command.ofArguments_checkLine (List.cons_ne_nil _ _) hints

theorem reportFiles_alone {text : Text} (h : reportFile files.read hints path = .ok (text, clean)) :
    reportFiles files.read hints [path] = (text, .ok clean) :=
  reportFiles_cons_ok_iff.2 ⟨text, clean, "", true, h, rfl, (Text.append_empty text).symm,
    (Bool.and_true clean).symm⟩

theorem runAlone_of_report {text : Text} (input : List UInt8)
    (h : reportFile files.read hints path = .ok (text, clean)) :
    (runAlone files hints input path).stdout = text ∧
      (runAlone files hints input path).status = .ok (if clean then 0 else 1) := by
  have hline := ofArguments_alone path hints
  have hreport := reportFiles_alone h
  exact ⟨(stdout_of_check hline).trans (congrArg Prod.fst hreport),
    (status_of_check hline).2 ⟨clean, congrArg Prod.snd hreport, rfl⟩⟩

theorem reportFiles_eq_alone (input : List UInt8)
    (h : reportFiles files.read hints paths = (out, .ok clean)) :
    out = Text.join (paths.map fun p => (runAlone files hints input p).stdout) ∧
      (clean = true ↔ ∀ p ∈ paths, (runAlone files hints input p).status = .ok 0) ∧
      ∀ p ∈ paths, ∃ k, (runAlone files hints input p).status = .ok k := by
  induction paths generalizing out clean with
  | nil =>
    obtain ⟨rfl, hclean⟩ := Prod.mk.inj h
    obtain rfl := Except.ok.inj hclean
    exact ⟨rfl, iff_of_true rfl fun p hp => absurd hp List.not_mem_nil,
      fun p hp => absurd hp List.not_mem_nil⟩
  | cons p paths ih =>
    obtain ⟨text, c, later, rest, hhere, hlater, rfl, rfl⟩ := reportFiles_cons_ok_iff.1 h
    obtain ⟨hout, hclean, hok⟩ := ih hlater
    obtain ⟨htext, hstatus⟩ := runAlone_of_report input hhere
    have hc : c = true ↔ (runAlone files hints input p).status = .ok 0 := by
      rw [hstatus]
      cases c <;> simp
    refine ⟨?_, ?_, List.forall_mem_cons.2 ⟨⟨_, hstatus⟩, hok⟩⟩
    · rw [List.map_cons, Text.join_cons, htext, hout]
    · rw [Bool.and_eq_true, hc, hclean, List.forall_mem_cons]

theorem runAlone_eq_zero_iff : (runAlone files hints input path).status = .ok 0 ↔ files.IsClean path := by
  rw [isClean_iff hints, runAlone, status_of_check (ofArguments_alone path hints)]
  constructor
  · rintro ⟨c, hc, hzero⟩
    cases c with
    | false => cases hzero
    | true =>
      rcases hreport : reportFile files.read hints path with e | ⟨text, c⟩
      · simp [reportFiles, hreport] at hc
      · rw [reportFiles_alone hreport] at hc
        obtain rfl := Except.ok.inj hc
        exact ⟨text, rfl⟩
  · rintro ⟨text, h⟩
    exact ⟨true, congrArg Prod.snd (reportFiles_alone h), rfl⟩

end

/-- A run that checks files and ends with status `n` does for each file what it does for that file alone, and
without hints it does the same but for them. -/
structure ChecksEach (files : FileTree) (hints : Bool) (paths : List String) (input : List UInt8)
    (stdout : Text) (n : Nat) : Prop where
  stdout_eq : stdout = Text.join (paths.map fun p => (runAlone files hints input p).stdout)
  status_le : n ≤ 1
  alone_ends : ∀ p ∈ paths, ∃ k, (runAlone files hints input p).status = .ok k
  eq_zero_iff : n = 0 ↔ ∀ p ∈ paths, (runAlone files hints input p).status = .ok 0
  alone_eq_zero_iff : ∀ p ∈ paths, (runAlone files hints input p).status = .ok 0 ↔ files.IsClean p
  quiet_status : (run files (Command.checkLine paths false) input).status = .ok n
  leaves_out_hints : ∃ ps, stdout = Printed.text ps ∧
    (run files (Command.checkLine paths false) input).stdout =
      Printed.text (ps.filter (!·.isHint))
  quiet_stdout : (∀ p ∈ paths, Unbroken p) →
    (run files (Command.checkLine paths false) input).stdout = dropHints stdout

theorem checksEach_of_status {files : FileTree} {argv : List String} {input : List UInt8} {n : Nat}
    (h : Command.ofArguments argv = .check paths hints)
    (hn : (run files argv input).status = .ok n) :
    ChecksEach files hints paths input (run files argv input).stdout n := by
  have hline : Command.ofArguments (Command.checkLine paths false) = .check paths false :=
    Command.ofArguments_checkLine (Command.ne_nil_of_check h) false
  obtain ⟨clean, hclean, rfl⟩ := (status_of_check h).1 hn
  have hreport : reportFiles files.read hints paths = ((run files argv input).stdout, .ok clean) :=
    Prod.ext (stdout_of_check h).symm hclean
  obtain ⟨hout, hall, hends⟩ := reportFiles_eq_alone input hreport
  obtain ⟨quiet, hquiet, ps, htext, hrest, hplain⟩ := exists_quiet_reportFiles hreport
  have hstdout : (run files (Command.checkLine paths false) input).stdout = quiet :=
    (stdout_of_check hline).trans (congrArg Prod.fst hquiet)
  constructor
  case stdout_eq => exact hout
  case status_le => cases clean <;> decide
  case alone_ends => exact hends
  case eq_zero_iff =>
    rw [← hall]
    cases clean <;> decide
  case alone_eq_zero_iff => exact fun p _ => runAlone_eq_zero_iff
  case quiet_status =>
    exact (status_of_check hline).2 ⟨clean, congrArg Prod.snd hquiet, rfl⟩
  case leaves_out_hints => exact ⟨ps, htext, hstdout.trans hrest⟩
  case quiet_stdout =>
    intro hpaths
    rw [hstdout]
    exact (LeavesOutHints.dropHints_eq ⟨ps, htext, hrest, hplain⟩ hpaths).symm

/-- A program with an unknown label, and one with nothing wrong. -/
def mixedFiles : FileTree :=
  { files := [([FileTree.nameOf "p"], octets "BRA nowhere\n"), ([FileTree.nameOf "q"], octets "HLT\n")] }

theorem read_mixedFiles : mixedFiles.read "p" = .ok (Text.toList "BRA nowhere\n") ∧
    mixedFiles.read "q" = .ok (Text.toList "HLT\n") ∧ mixedFiles.read "r" = .error .fileNotFound := by
  have hp : mixedFiles.find "p" = .file [FileTree.nameOf "p"] (octets "BRA nowhere\n") false := by
    decide +kernel
  have hq : mixedFiles.find "q" = .file [FileTree.nameOf "q"] (octets "HLT\n") false := by
    decide +kernel
  have hr : mixedFiles.find "r" = .vacant [FileTree.nameOf "r"] false := by
    decide +kernel
  simp only [FileTree.read, FileTree.bytes, hp, hq, hr, textOfFile, bind, Except.bind, fromUTF8?_octets]
  decide +kernel

theorem checksEach_mixedFiles :
    Command.ofArguments ["p", "q", "r"] = .check ["p", "q", "r"] true ∧
      (run mixedFiles ["p", "q", "r"] []).status = .ok 1 ∧
      ChecksEach mixedFiles true ["p", "q", "r"] [] (run mixedFiles ["p", "q", "r"] []).stdout 1 := by
  have hline : Command.ofArguments ["p", "q", "r"] = .check ["p", "q", "r"] true := rfl
  obtain ⟨hp, hq, hr⟩ := read_mixedFiles
  have hbad : reportFile mixedFiles.read true "p" =
      .ok ("\x1b[31mError p:1:5: Undefined label: nowhere\x1b[0m\n   1 | BRA nowhere\n" ++
        "     |     ^~~~~~~\n\x1b[35mHint p:1:5: Create code label 'nowhere'\x1b[0m\n", false) := by
    rw [reportFile, hp]
    decide +kernel
  have hgood : reportFile mixedFiles.read true "q" = .ok ("", true) := by
    rw [reportFile, hq]
    decide +kernel
  have hgone : reportFile mixedFiles.read true "r" = .ok ("File not found: r\n", false) := by
    rw [reportFile, hr]
    decide +kernel
  have hstatus : (run mixedFiles ["p", "q", "r"] []).status = .ok 1 := by
    refine (status_of_check hline).2 ⟨false, ?_, rfl⟩
    simp only [reportFiles, hbad, hgood, hgone, Except.map, Bool.and_true, Bool.and_false]
  exact ⟨hline, hstatus, checksEach_of_status hline hstatus⟩

end Program

end LittleMan
