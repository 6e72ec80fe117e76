import LittleMan.Decimal.Number
import LittleMan.Fault

/-! JSON values. An object keeps its fields in the order they were written. -/

namespace LittleMan

inductive Json where
  | null
  | bool (b : Bool)
  | int (n : Int)
  | float (x : Double)
  | str (s : Text)
  | arr (items : List Json)
  | obj (fields : List (Text × Json))
  deriving Repr, Inhabited

namespace Json

mutual

def decEq : (a b : Json) → Decidable (a = b)
  | .null, .null => isTrue rfl
  | .bool a, .bool b => decidable_of_iff (a = b) (by simp)
  | .int a, .int b => decidable_of_iff (a = b) (by simp)
  | .float a, .float b => decidable_of_iff (a = b) (by simp)
  | .str a, .str b => decidable_of_iff (a = b) (by simp)
  | .arr a, .arr b => @decidable_of_iff _ (a = b) (by simp) (decEqItems a b)
  | .obj a, .obj b => @decidable_of_iff _ (a = b) (by simp) (decEqFields a b)
  | .null, .bool _ | .null, .int _ | .null, .float _ | .null, .str _ | .null, .arr _
  | .null, .obj _ | .bool _, .null | .bool _, .int _ | .bool _, .float _ | .bool _, .str _
  | .bool _, .arr _ | .bool _, .obj _ | .int _, .null | .int _, .bool _ | .int _, .float _
  | .int _, .str _ | .int _, .arr _ | .int _, .obj _ | .float _, .null | .float _, .bool _
  | .float _, .int _ | .float _, .str _ | .float _, .arr _ | .float _, .obj _ | .str _, .null
  | .str _, .bool _ | .str _, .int _ | .str _, .float _ | .str _, .arr _ | .str _, .obj _
  | .arr _, .null | .arr _, .bool _ | .arr _, .int _ | .arr _, .float _ | .arr _, .str _
  | .arr _, .obj _ | .obj _, .null | .obj _, .bool _ | .obj _, .int _ | .obj _, .float _
  | .obj _, .str _ | .obj _, .arr _ => isFalse (by simp)

def decEqItems : (a b : List Json) → Decidable (a = b)
  | [], [] => isTrue rfl
  | [], _ :: _ | _ :: _, [] => isFalse (by simp)
  | a :: as, b :: bs =>
    @decidable_of_iff _ (a = b ∧ as = bs) (by simp)
      (@instDecidableAnd _ _ (decEq a b) (decEqItems as bs))

def decEqFields : (a b : List (Text × Json)) → Decidable (a = b)
  | [], [] => isTrue rfl
  | [], _ :: _ | _ :: _, [] => isFalse (by simp)
  | (k, a) :: as, (l, b) :: bs =>
    @decidable_of_iff _ ((k = l ∧ a = b) ∧ as = bs) (by simp)
      (@instDecidableAnd _ _ (@instDecidableAnd _ _ _ (decEq a b)) (decEqFields as bs))

end

instance : DecidableEq Json := decEq

def lookup (key : Text) : List (Text × Json) → Option Json
  | [] => none
  | (k, v) :: rest => if k = key then some v else lookup key rest

/-- Writes a field: in its place if there is one of that name, else at the end. -/
def setField (key : Text) (value : Json) : List (Text × Json) → List (Text × Json)
  | [] => [(key, value)]
  | (k, v) :: rest => if k = key then (k, value) :: rest else (k, v) :: setField key value rest

/-- A field that may be absent; absent and null are one. -/
def field? (v : Json) (key : Text) : Except Fault Json :=
  match v with
  | .obj fields => .ok ((lookup key fields).getD .null)
  | _ => .error .notAnObject

def field (v : Json) (key : Text) : Except Fault Json :=
  match v with
  | .obj fields =>
    match lookup key fields with
    | some x => .ok x
    | none => .error (.missingKey key)
  | _ => .error .wrongShape

/-- Null, false, zero, and what holds nothing. -/
def isEmpty : Json → Bool
  | .null => true
  | .bool b => !b
  | .int n => n == 0
  | .float x => x.isZero
  | .str s => s == ""
  | .arr items => items.isEmpty
  | .obj fields => fields.isEmpty

/-- What can name a document or a request: anything but an array or an object. -/
def isScalar : Json → Bool
  | .arr _ | .obj _ => false
  | _ => true

def requireScalar (v : Json) : Except Fault Unit :=
  if v.isScalar then .ok () else .error .wrongShape

def isBool : Json → Bool
  | .bool _ => true
  | _ => false

/-- The number that a value stands for; false and true stand for 0 and 1. -/
def number? : Json → Option Number
  | .bool b => some (.whole (if b then 1 else 0))
  | .int n => some (.whole n)
  | .float x => some (.real x)
  | _ => none

def number (v : Json) : Except Fault Number :=
  match v.number? with
  | some n => .ok n
  | none => .error .wrongShape

def string? : Json → Option String
  | .str t => t.toString?
  | _ => none

theorem string?_eq_some_iff {v : Json} {s : String} : v.string? = some s ↔ v = .str s := by
  cases v with
  | str t => rw [string?, Text.toString?_eq_some_iff, str.injEq]
  | _ => simp [string?]

mutual

/-- Whether two values mean the same: numbers are told apart by value only, what is no number is the same
as itself, and the order of the fields of an object does not count. -/
def same : (a b : Json) → Bool
  | .arr a, .arr b => sameItems a b
  | .obj a, .obj b => a.length == b.length && sameFields a b
  | a, b =>
    match a.number?, b.number? with
    | some x, some y => x == y || x.same y
    | none, none => a == b
    | _, _ => false

def sameItems : (a b : List Json) → Bool
  | [], [] => true
  | a :: as, b :: bs => same a b && sameItems as bs
  | _, _ => false

/-- Whether each field of the first list means the same as that of its name in the second. -/
def sameFields : (a b : List (Text × Json)) → Bool
  | [], _ => true
  | (k, v) :: rest, b =>
    (match lookup k b with
      | some w => same v w
      | none => false) && sameFields rest b

end

end Json

end LittleMan
