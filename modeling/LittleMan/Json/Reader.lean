import LittleMan.Decimal.Integer
import LittleMan.Json.Basic
import LittleMan.Text.Hex

/-! Reading JSON text. Blanks may stand around every token; of two fields with one name the last
counts, in the place of the first. Arrays and objects are read by calls inside each other, for which
there is only so much room. -/

namespace LittleMan

namespace Json

inductive Refusal where
  | malformed
  /-- A whole number has more digits than are read. -/
  | tooManyDigits
  /-- Arrays or objects stand inside each other deeper than there is room for. -/
  | tooDeep
  deriving DecidableEq, Repr

/-- How deep values may be nested: the interpreter allows a thousand calls inside each other, and the
others are in progress where the reader of a message starts. -/
def depthLimit : Nat := 992

def skipBlanks (t : List Char) : List Char :=
  t.dropWhile fun c => c == ' ' || c == '\t' || c == '\n' || c == '\r'

def unit? (a b c d : Char) : Option Nat := do
  return (((← hexValue? a) * 16 + (← hexValue? b)) * 16 + (← hexValue? c)) * 16 + (← hexValue? d)

/-- The code units up to the closing quote, and what follows it. -/
def readUnits : List Char → Option (List Nat × List Char)
  | [] => none
  | '"' :: rest => some ([], rest)
  | '\\' :: 'u' :: a :: b :: c :: d :: rest =>
    match unit? a b c d with
    | some u => (readUnits rest).map fun (us, r) => (u :: us, r)
    | none => none
  | '\\' :: c :: rest =>
    let escaped : Option Nat :=
      match c with
      | '"' => some 0x22
      | '\\' => some 0x5c
      | '/' => some 0x2f
      | 'b' => some 0x8
      | 'f' => some 0xc
      | 'n' => some 0xa
      | 'r' => some 0xd
      | 't' => some 0x9
      | _ => none
    match escaped with
    | some u => (readUnits rest).map fun (us, r) => (u :: us, r)
    | none => none
  | c :: rest =>
    if c.toNat < 0x20 ∨ c = '\\' then none
    else (readUnits rest).map fun (us, r) => (c.toNat :: us, r)

/-- Two halves of a surrogate pair are one character; a half alone stays what it is. -/
def joinPairs : List Nat → List CodePoint
  | [] => []
  | [u] => [CodePoint.ofNat u]
  | u :: v :: rest =>
    if 0xd800 ≤ u ∧ u < 0xdc00 ∧ 0xdc00 ≤ v ∧ v < 0xe000 then
      CodePoint.ofNat (0x10000 + (u - 0xd800) * 0x400 + (v - 0xdc00)) :: joinPairs rest
    else CodePoint.ofNat u :: joinPairs (v :: rest)

def readString (t : List Char) : Except Refusal (Text × List Char) :=
  match readUnits t with
  | some (us, rest) => .ok (Text.ofList (joinPairs us), rest)
  | none => .error .malformed

/-- The digits after a decimal point, and what follows them. Without a digit there is no point. -/
def readFraction (t : List Char) : List Char × List Char :=
  match t with
  | '.' :: rest =>
    if rest.head?.any Char.isDigit then (rest.takeWhile Char.isDigit, rest.dropWhile Char.isDigit)
    else ([], t)
  | _ => ([], t)

def wholeOf (digits : List Char) : Nat := Decimal.value (digits.map .scalar)

def readExponent (t : List Char) : Option Int × List Char :=
  match t with
  | e :: rest =>
    if e = 'e' ∨ e = 'E' then
      let (negative, digits) :=
        match rest with
        | '-' :: r => (true, r)
        | '+' :: r => (false, r)
        | _ => (false, rest)
      if digits.head?.any Char.isDigit then
        let n : Int := wholeOf (digits.takeWhile Char.isDigit)
        (some (if negative then -n else n), digits.dropWhile Char.isDigit)
      else (none, t)
    else (none, t)
  | [] => (none, t)

/-- A number that is written as a word, and what follows it. -/
def readWord (negative : Bool) : List Char → Except Refusal (Json × List Char)
  | 'I' :: 'n' :: 'f' :: 'i' :: 'n' :: 'i' :: 't' :: 'y' :: rest =>
    .ok (.float (Double.infinite negative), rest)
  | 'N' :: 'a' :: 'N' :: rest => if negative then .error .malformed else .ok (.float .nan, rest)
  | _ => .error .malformed

/-- A number: an integer unless it has a fraction or an exponent. -/
def readNumber (t : List Char) : Except Refusal (Json × List Char) :=
  let (negative, t) : Bool × List Char :=
    match t with
    | '-' :: rest => (true, rest)
    | _ => (false, t)
  let (whole, rest) : List Char × List Char :=
    match t with
    | '0' :: rest => (['0'], rest)
    | _ => (t.takeWhile Char.isDigit, t.dropWhile Char.isDigit)
  if whole.isEmpty then readWord negative t
  else
    let (fraction, rest) := readFraction rest
    let (exponent, rest) := readExponent rest
    if fraction.isEmpty ∧ exponent.isNone then
      if Decimal.digitLimit < whole.length then .error .tooManyDigits
      else
        let n : Int := wholeOf whole
        .ok (.int (if negative then -n else n), rest)
    else
      let digits := whole ++ fraction
      .ok (.float (Double.ofDecimal negative (wholeOf digits) digits.length
        (exponent.getD 0 - fraction.length)), rest)

mutual

/-- A value at the head of the text, nested no deeper than there is room for. Each step uses up fuel. -/
def readValue (room : Nat) : Nat → List Char → Except Refusal (Json × List Char)
  | 0, _ => .error .malformed
  | fuel + 1, t =>
    match t with
    | '"' :: rest => (readString rest).map fun (s, r) => (.str s, r)
    | '[' :: rest =>
      match room with
      | 0 => .error .tooDeep
      | room + 1 =>
        match skipBlanks rest with
        | ']' :: r => .ok (.arr [], r)
        | r => (readItems room fuel r).map fun (vs, r) => (.arr vs, r)
    | '\x7b' :: rest =>
      match room with
      | 0 => .error .tooDeep
      | room + 1 =>
        match skipBlanks rest with
        | '\x7d' :: r => .ok (.obj [], r)
        | r => (readFields room fuel r).map fun (fs, r) =>
          (.obj (fs.foldl (fun acc (k, v) => setField k v acc) []), r)
    | 'n' :: 'u' :: 'l' :: 'l' :: rest => .ok (.null, rest)
    | 't' :: 'r' :: 'u' :: 'e' :: rest => .ok (.bool true, rest)
    | 'f' :: 'a' :: 'l' :: 's' :: 'e' :: rest => .ok (.bool false, rest)
    | _ => readNumber t

def readItems (room : Nat) : Nat → List Char → Except Refusal (List Json × List Char)
  | 0, _ => .error .malformed
  | fuel + 1, t => do
    let (v, rest) ← readValue room fuel t
    match skipBlanks rest with
    | ']' :: r => return ([v], r)
    | ',' :: r =>
      let (vs, r) ← readItems room fuel (skipBlanks r)
      return (v :: vs, r)
    | _ => throw .malformed

def readFields (room : Nat) : Nat → List Char → Except Refusal (List (Text × Json) × List Char)
  | 0, _ => .error .malformed
  | fuel + 1, t =>
    match t with
    | '"' :: rest => do
      let (key, rest) ← readString rest
      match skipBlanks rest with
      | ':' :: rest =>
        let (v, rest) ← readValue room fuel (skipBlanks rest)
        match skipBlanks rest with
        | '\x7d' :: r => return ([(key, v)], r)
        | ',' :: r =>
          let (fs, r) ← readFields room fuel (skipBlanks r)
          return ((key, v) :: fs, r)
        | _ => throw .malformed
      | _ => throw .malformed
    | _ => .error .malformed

end

/-- The value that a whole text holds. Nested values take two characters and two steps each. -/
def read (room : Nat) (t : List Char) : Except Refusal Json := do
  let (v, rest) ← readValue room (2 * t.length + 2) (skipBlanks t)
  if (skipBlanks rest).isEmpty then return v else throw .malformed

end Json

end LittleMan
