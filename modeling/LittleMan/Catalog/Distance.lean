import LittleMan.Text.CodePoint

/-! The edit distance of two words: the least number of characters inserted, deleted or replaced that
turns one into the other. It is computed row by row; a row holds the distances of one beginning of
the first word to every beginning of the second. -/

namespace LittleMan

/-- The rest of the row that adds the character `c` of the first word. `b` is what remains of the
second word, `diagonal` and the list are the row above, `left` is the distance just computed. -/
def nextRow (c : CodePoint) : List CodePoint → Nat → List Nat → Nat → List Nat
  | d :: b, diagonal, above :: row, left =>
    let here := min (min (above + 1) (left + 1)) (diagonal + if c = d then 0 else 1)
    here :: nextRow c b above row here
  | _, _, _, _ => []

/-- The row after `row` for one more character of the first word. -/
def stepRow (b : List CodePoint) (row : List Nat) (c : CodePoint) : List Nat :=
  match row with
  | [] => []
  | first :: rest => (first + 1) :: nextRow c b first rest (first + 1)

def editDistance (a b : List CodePoint) : Nat :=
  (a.foldl (stepRow b) (List.range (b.length + 1))).getLastD 0

end LittleMan
