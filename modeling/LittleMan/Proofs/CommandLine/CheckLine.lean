import LittleMan.CommandLine.Command
import Mathlib.Data.List.TakeWhile

/-! Command lines that ask for files to be checked. There is one for any files at all: paths behind a separator
are never taken for options, whatever their names. -/

namespace LittleMan

namespace Options

theorem read_separated (fuel : Nat) (o : Options) (paths : List String) :
    read (fuel + 2) o none [] (.separator :: paths.map .word) = .options { o with infiles := paths } := by
  have hwords : ∀ a ∈ paths.map Argument.word, (!a.isOption) = true := by
    intro a ha
    obtain ⟨p, -, rfl⟩ := List.mem_map.1 ha
    rfl
  have hrun : (Argument.separator :: paths.map .word).takeWhile (!·.isOption) =
      .separator :: paths.map .word := by
    rw [List.takeWhile_cons_of_pos rfl, List.takeWhile_eq_self_iff.2 hwords]
  have hrest : (Argument.separator :: paths.map .word).dropWhile (!·.isOption) = [] := by
    rw [List.dropWhile_cons_of_pos rfl, List.dropWhile_eq_nil_iff.2 hwords]
  have htexts : words (.separator :: paths.map .word) = paths := by
    have htext : (Argument.text ∘ Argument.word) = id := rfl
    rw [words, List.map_cons, List.map_map, htext, List.map_id]
    exact List.erase_cons_head _ _
  simp only [read, hrun, hrest, htexts, List.isEmpty_nil, if_true, Option.getD_some]

end Options

namespace Command

/-- A command line for the check of some files. -/
def checkLine (paths : List String) (hints : Bool) : List String :=
  (if hints then [] else ["--no-hints"]) ++ "--" :: paths

theorem ofArguments_checkLine {paths : List String} (h : paths ≠ []) (hints : Bool) :
    ofArguments (checkLine paths hints) = .check paths hints := by
  have hempty : paths.isEmpty = false := by
    rwa [← Bool.not_eq_true, List.isEmpty_iff]
  have hread : Options.ofArguments (checkLine paths hints) =
      .options { infiles := paths, noHints := !hints } := by
    cases hints with
    | true =>
      have hclass : Argument.classifyAll ("--" :: paths) = .ok (.separator :: paths.map .word) := rfl
      have hline : checkLine paths true = "--" :: paths := rfl
      rw [Options.ofArguments, hline, hclass]
      exact Options.read_separated _ _ paths
    | false =>
      have hclass : Argument.classifyAll ("--no-hints" :: "--" :: paths) =
          .ok (.option .noHints .none :: .separator :: paths.map .word) := rfl
      have hline : checkLine paths false = "--no-hints" :: "--" :: paths := rfl
      rw [Options.ofArguments, hline, hclass]
      exact Options.read_separated _ _ paths
  simp only [ofArguments, hread, ofOptions, given, hempty, Bool.not_not]
  rfl

theorem ne_nil_of_check {argv paths : List String} {hints : Bool}
    (h : ofArguments argv = .check paths hints) : paths ≠ [] := by
  rw [ofArguments] at h
  split at h
  · rw [ofOptions] at h
    split at h
    · cases h
    · split at h
      · cases h
      · split at h
        · cases h
        · split at h
          · cases h
          · next hne =>
            cases h
            simpa using hne
  · cases h
  · cases h

end Command

end LittleMan
