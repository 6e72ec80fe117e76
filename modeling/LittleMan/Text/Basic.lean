import LittleMan.Text.CodePoint

/-! Texts. A text is a list of code points; what has an encoding is also a string. -/

namespace LittleMan

structure Text where
  ofList ::
  toList : List CodePoint
  deriving DecidableEq, Repr

namespace Text

def ofString (s : String) : Text := ⟨s.toList.map .scalar⟩

instance : Coe String Text := ⟨ofString⟩

instance : Append Text := ⟨fun a b => ⟨a.toList ++ b.toList⟩⟩

instance : Inhabited Text := ⟨""⟩

def length (t : Text) : Nat := t.toList.length

def join (ts : List Text) : Text := ⟨ts.flatMap (·.toList)⟩

def intercalate (between : Text) : List Text → Text
  | [] => ""
  | [t] => t
  | t :: ts => t ++ between ++ intercalate between ts

/-- The characters of a text, if it holds nothing else. -/
def characters? : List CodePoint → Option (List Char)
  | [] => some []
  | .scalar c :: rest => (characters? rest).map (c :: ·)
  | .surrogate _ :: _ => none

def toString? (t : Text) : Option String := (characters? t.toList).map String.ofList

@[simp] theorem toList_append (a b : Text) : (a ++ b).toList = a.toList ++ b.toList := rfl

theorem toList_ofString (s : String) : (ofString s).toList = s.toList.map .scalar := rfl

theorem toList_inj {a b : Text} : a.toList = b.toList ↔ a = b := by
  refine ⟨fun h => ?_, fun h => h ▸ rfl⟩
  cases a
  cases b
  exact congrArg ofList h

theorem ofList_append (a b : List CodePoint) : ofList (a ++ b) = ofList a ++ ofList b := rfl

@[simp] theorem ofString_inj {a b : String} : ofString a = ofString b ↔ a = b := by
  refine ⟨fun h => ?_, fun h => h ▸ rfl⟩
  have hlist : a.toList.map CodePoint.scalar = b.toList.map .scalar := congrArg toList h
  have hscalar : ∀ x y : Char, CodePoint.scalar x = .scalar y → x = y := fun _ _ h =>
    CodePoint.scalar.inj h
  exact String.toList_inj.1 ((List.map_inj_right hscalar).1 hlist)

theorem ofString_append (a b : String) : ofString (a ++ b) = ofString a ++ ofString b := by
  rw [← toList_inj, toList_ofString, String.toList_append, List.map_append]
  rfl

theorem append_assoc (a b c : Text) : a ++ b ++ c = a ++ (b ++ c) := by
  rw [← toList_inj]
  exact List.append_assoc _ _ _

@[simp] theorem append_empty (a : Text) : a ++ ("" : Text) = a := by
  rw [← toList_inj]
  exact List.append_nil _

theorem join_cons (t : Text) (ts : List Text) : join (t :: ts) = t ++ join ts := by
  rw [← toList_inj, toList_append, join, List.flatMap_cons]
  rfl

theorem characters?_eq_some_iff {t : List CodePoint} {cs : List Char} :
    characters? t = some cs ↔ t = cs.map .scalar := by
  induction t generalizing cs with
  | nil => cases cs <;> simp [characters?]
  | cons c t ih =>
    cases c with
    | scalar c =>
      rw [characters?, Option.map_eq_some_iff]
      constructor
      · rintro ⟨ds, hds, rfl⟩
        rw [ih.1 hds, List.map_cons]
      · intro h
        cases cs with
        | nil => cases h
        | cons d ds =>
          obtain ⟨hc, ht⟩ := List.cons.inj h
          exact ⟨ds, ih.2 ht, by rw [CodePoint.scalar.inj hc]⟩
    | surrogate n => cases cs <;> simp [characters?]

theorem toString?_eq_some_iff {t : Text} {s : String} : t.toString? = some s ↔ t = s := by
  rw [← toList_inj, toList_ofString, toString?, Option.map_eq_some_iff]
  constructor
  · rintro ⟨cs, hcs, rfl⟩
    rw [String.toList_ofList]
    exact characters?_eq_some_iff.1 hcs
  · intro h
    exact ⟨s.toList, characters?_eq_some_iff.2 h, String.ofList_toList⟩

end Text

end LittleMan
