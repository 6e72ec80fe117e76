import LittleMan.Json.Basic

/-! The settings of a client. -/

namespace LittleMan

structure Settings where
  /-- How many diagnostics are published for one document. -/
  maxNumberOfProblems : Int := 1000
  deriving DecidableEq, Repr

namespace Settings

def settingsSection : Text := "lmc"

/-- The settings in a client's value; what is missing or of another type keeps its default. -/
def ofJson (v : Json) : Settings :=
  match v with
  | .obj fields =>
    match Json.lookup "maxNumberOfProblems" fields with
    | some (.int n) => { maxNumberOfProblems := n }
    | _ => {}
  | _ => {}

def limit (s : Settings) : Nat := s.maxNumberOfProblems.toNat

end Settings

end LittleMan
