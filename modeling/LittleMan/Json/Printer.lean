import LittleMan.Decimal.Shortest
import LittleMan.Json.Basic
import LittleMan.Text.Hex

/-! Writing JSON text, in ASCII: whatever lies outside the printable ASCII characters is escaped, by
two code units if need be; a surrogate on its own is one. A blank follows each comma and each colon. -/

namespace LittleMan

namespace Json

def escapeUnit (u : Nat) : List Char := '\\' :: 'u' :: hexDigits 4 u

def escape : CodePoint → List Char
  | .surrogate n => escapeUnit (0xd800 + n)
  | .scalar c =>
    if c = '"' ∨ c = '\\' then ['\\', c]
    else if c = '\n' then ['\\', 'n']
    else if c = '\r' then ['\\', 'r']
    else if c = '\t' then ['\\', 't']
    else if c.toNat = 0x8 then ['\\', 'b']
    else if c.toNat = 0xc then ['\\', 'f']
    else if 0x20 ≤ c.toNat ∧ c.toNat < 0x7f then [c]
    else if c.toNat < 0x10000 then escapeUnit c.toNat
    else
      let n := c.toNat - 0x10000
      escapeUnit (0xd800 + n / 0x400) ++ escapeUnit (0xdc00 + n % 0x400)

def printString (s : Text) : List Char :=
  '"' :: s.toList.flatMap escape ++ ['"']

mutual

def print : Json → List Char
  | .null => "null".toList
  | .bool true => "true".toList
  | .bool false => "false".toList
  | .int n => (toString n).toList
  | .float x => (x.text "Infinity" "NaN").toList
  | .str s => printString s
  | .arr [] => ['[', ']']
  | .arr (v :: vs) => '[' :: print v ++ printItems vs ++ [']']
  | .obj [] => ['\x7b', '\x7d']
  | .obj ((k, v) :: fs) =>
    '\x7b' :: printString k ++ ':' :: ' ' :: print v ++ printFields fs ++ ['\x7d']

def printItems : List Json → List Char
  | [] => []
  | v :: vs => ',' :: ' ' :: print v ++ printItems vs

def printFields : List (Text × Json) → List Char
  | [] => []
  | (k, v) :: fs => ',' :: ' ' :: printString k ++ ':' :: ' ' :: print v ++ printFields fs

end

/-- A scalar written as the name of a field. -/
def keyText : Json → Text
  | .str s => s
  | v => String.ofList (print v)

end Json

end LittleMan
