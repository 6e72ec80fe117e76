import LittleMan.Text.Basic

/-! Why an operation cannot give an answer. -/

namespace LittleMan

inductive Fault where
  /-- A whole number has more decimal digits than are read or shown. -/
  | tooManyDigits
  | outOfRange
  | missingKey (key : Text)
  /-- An object is asked for an item as if it were a list. -/
  | missingItem (index : Int)
  /-- A value has the wrong shape for what is done with it. -/
  | wrongShape
  /-- A field is looked up in a value that is no object, or a text is needed and there is none. -/
  | notAnObject
  /-- A size lies beyond the signed 64-bit numbers, or a number beyond the doubles it is taken with. -/
  | sizeOverflow
  /-- A text is longer than any memory holds. -/
  | noMemory
  | fileNotFound
  | isDirectory
  | notDirectory
  | badEncoding
  /-- A text is to be encoded and holds a surrogate that belongs to no pair. -/
  | loneSurrogate
  /-- A message is nested deeper than there is room for. -/
  | tooDeep
  /-- A path holds the NUL character. -/
  | badPath
  /-- A path, or a name in it, is too long for a file system. -/
  | nameTooLong
  /-- A file cannot be read for another reason. -/
  | unreadable
  deriving DecidableEq, Repr

section

variable {α β : Type} {e : Fault}

theorem bind_eq_ok_iff {x : Except Fault α} {f : α → Except Fault β} {b : β} :
    x >>= f = .ok b ↔ ∃ a, x = .ok a ∧ f a = .ok b := by
  cases x <;> simp [bind, Except.bind]

theorem bind_eq_error_iff {x : Except Fault α} {f : α → Except Fault β} :
    (x >>= f) = .error e ↔ x = .error e ∨ ∃ a, x = .ok a ∧ f a = .error e := by
  cases x <;> simp [bind, Except.bind]

theorem map_eq_error_iff {x : Except Fault α} {f : α → β} : x.map f = .error e ↔ x = .error e := by
  cases x <;> simp [Except.map]

end

end LittleMan
