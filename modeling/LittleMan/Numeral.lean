import LittleMan.Decimal.Integer
import LittleMan.Text.Hex

/-! Numerals: unsigned 64-bit values in decimal, or in hexadecimal, octal or binary after `0x`, `0o` or
`0b`. -/

namespace LittleMan

namespace Numeral

def maxValue : Nat := 18446744073709551615

inductive Issue where
  | notNumeral
  | outOfRange
  | tooManyDigits
  deriving DecidableEq, Repr

/-- One decimal digit or more, and nothing else. -/
def isDecimal (t : List CodePoint) : Bool := !t.isEmpty && t.all CodePoint.isDigit

def digit? (base : Nat) (c : CodePoint) : Option Nat := (hexValue? c).filter (· < base)

def digits? (base : Nat) (t : List CodePoint) : Option Nat :=
  if t.isEmpty then none
  else t.foldlM (fun n c => (digit? base c).map (base * n + ·)) 0

def base? (c : CodePoint) : Option Nat :=
  if c = 'x' ∨ c = 'X' then some 16
  else if c = 'o' ∨ c = 'O' then some 8
  else if c = 'b' ∨ c = 'B' then some 2
  else none

/-- The value of a numeral after its base has been announced. -/
def radix? : List CodePoint → Option Nat
  | .scalar '0' :: c :: t => (base? c).bind (digits? · t)
  | _ => none

def read (t : List CodePoint) : Except Issue Nat :=
  let bounded (n : Nat) : Except Issue Nat := if maxValue < n then .error .outOfRange else .ok n
  if isDecimal t then
    if Decimal.digitLimit < t.length then .error .tooManyDigits
    else bounded (Decimal.value t)
  else
    match radix? t with
    | some n => bounded n
    | none => .error .notNumeral

/-- What is said of a text without a value; the limit on digits has no wording. -/
def Issue.message (t : List CodePoint) : Issue → Option Text
  | .notNumeral => some ("Not a number: `" ++ Text.ofList t ++ "`")
  | .outOfRange =>
    some ("Value " ++ Text.ofList t ++ " out of range (0-" ++ toString maxValue ++ ")")
  | .tooManyDigits => none

end Numeral

end LittleMan
