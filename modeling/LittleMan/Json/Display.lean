import LittleMan.Decimal.Shortest
import LittleMan.Json.Basic
import LittleMan.Text.Quoted

/-! Values as messages and logs show them: a text stands for itself, and inside an array or an object
it is quoted. -/

namespace LittleMan

namespace Json

mutual

def describe : Json → Text
  | .null => "None"
  | .bool true => "True"
  | .bool false => "False"
  | .int n => toString n
  | .float x => x.text "inf" "nan"
  | .str s => quoted s.toList
  | .arr [] => "[]"
  | .arr (v :: vs) => "[" ++ describe v ++ describeItems vs ++ "]"
  | .obj [] => "\x7b\x7d"
  | .obj ((k, v) :: fs) =>
    "\x7b" ++ quoted k.toList ++ ": " ++ describe v ++ describeFields fs ++ "\x7d"

def describeItems : List Json → Text
  | [] => ""
  | v :: vs => ", " ++ describe v ++ describeItems vs

def describeFields : List (Text × Json) → Text
  | [] => ""
  | (k, v) :: fs => ", " ++ quoted k.toList ++ ": " ++ describe v ++ describeFields fs

end

def display : Json → Text
  | .str s => s
  | v => describe v

end Json

end LittleMan
