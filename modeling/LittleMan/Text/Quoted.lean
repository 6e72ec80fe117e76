import LittleMan.Text.Basic
import LittleMan.Text.Hex
import LittleMan.Text.Printable

/-! Text between quotes, as descriptions show it. The quotes are single unless the text holds a single
quote and no double one; what cannot be shown is escaped. -/

namespace LittleMan

def quoteMark (t : List CodePoint) : CodePoint :=
  if t.contains '\'' && !t.contains '"' then '"' else '\''

/-- A character inside quotes `q`. -/
def escapeQuoted (q c : CodePoint) : List CodePoint :=
  if c = q ∨ c = '\\' then ['\\', c]
  else if c = '\n' then ['\\', 'n']
  else if c = '\r' then ['\\', 'r']
  else if c = '\t' then ['\\', 't']
  else if isPrintable c then [c]
  else if c.toNat < 0x100 then (['\\', 'x'] ++ hexDigits 2 c.toNat).map .scalar
  else if c.toNat < 0x10000 then (['\\', 'u'] ++ hexDigits 4 c.toNat).map .scalar
  else (['\\', 'U'] ++ hexDigits 8 c.toNat).map .scalar

def quoted (t : List CodePoint) : Text :=
  let q := quoteMark t
  Text.ofList (q :: t.flatMap (escapeQuoted q) ++ [q])

end LittleMan
