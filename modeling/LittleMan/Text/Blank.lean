import LittleMan.Text.CodePoint

/-! Character classes. The line grammar knows six blanks, all ASCII; a blank document may hold any
character of the Unicode property White_Space and the four information separators. -/

namespace LittleMan

/-- A blank of the line grammar: space, tab, line feed, vertical tab, form feed or carriage return. -/
def isSpace (c : CodePoint) : Bool :=
  c == ' ' || (9 ≤ c.toNat && c.toNat ≤ 13)

def isWord (c : CodePoint) : Bool := c.isAlphanum || c == '_'

/-- The ranges of characters that count as blank in a document or a header. -/
def blankRanges : List (Nat × Nat) :=
  [(0x9, 0xd), (0x1c, 0x20), (0x85, 0x85), (0xa0, 0xa0), (0x1680, 0x1680), (0x2000, 0x200a),
    (0x2028, 0x2029), (0x202f, 0x202f), (0x205f, 0x205f), (0x3000, 0x3000)]

def isBlank (c : CodePoint) : Bool :=
  blankRanges.any fun r => r.1 ≤ c.toNat && c.toNat ≤ r.2

def strip (t : List CodePoint) : List CodePoint :=
  ((t.dropWhile isBlank).reverse.dropWhile isBlank).reverse

theorem isSpace_iff (c : CodePoint) :
    isSpace c = true ↔ c.toNat = 32 ∨ (9 ≤ c.toNat ∧ c.toNat ≤ 13) := by
  have hc : c = ' ' ↔ c.toNat = 32 := ⟨fun h => h ▸ rfl, fun h => CodePoint.toNat_inj.1 h⟩
  simp [isSpace, hc]

theorem isWord_iff (c : CodePoint) :
    isWord c = true ↔
      c.isUpper = true ∨ c.isLower = true ∨ c.isDigit = true ∨ c = '_' := by
  simp [isWord, CodePoint.isAlphanum, CodePoint.isAlpha, or_assoc]

theorem not_isWord_of_isSpace {c : CodePoint} (h : isSpace c = true) : isWord c = false := by
  rw [isSpace_iff] at h
  rw [Bool.eq_false_iff]
  intro hw
  rw [isWord_iff, CodePoint.isUpper_iff, CodePoint.isLower_iff, CodePoint.isDigit_iff] at hw
  rcases hw with hw | hw | hw | rfl
  · omega
  · omega
  · omega
  · simp at h

end LittleMan
