/-! The items of a text. Besides characters a text may hold surrogates that belong to no pair: an escape in
JSON can write one, and no encoding has a form for it. -/

namespace LittleMan

inductive CodePoint where
  | scalar (c : Char)
  /-- A surrogate on its own, counted from the first one, `0xd800`. -/
  | surrogate (n : Fin 2048)
  deriving DecidableEq, Repr

instance : Coe Char CodePoint := ⟨CodePoint.scalar⟩

namespace CodePoint

def toNat : CodePoint → Nat
  | scalar c => c.toNat
  | surrogate n => 0xd800 + n

def ofNat (n : Nat) : CodePoint :=
  if h : 0xd800 ≤ n ∧ n < 0xe000 then surrogate ⟨n - 0xd800, by omega⟩ else scalar (Char.ofNat n)

def isSurrogate : CodePoint → Bool
  | scalar _ => false
  | surrogate _ => true

def isDigit (c : CodePoint) : Bool := 48 ≤ c.toNat && c.toNat ≤ 57

def isUpper (c : CodePoint) : Bool := 65 ≤ c.toNat && c.toNat ≤ 90

def isLower (c : CodePoint) : Bool := 97 ≤ c.toNat && c.toNat ≤ 122

def isAlpha (c : CodePoint) : Bool := c.isUpper || c.isLower

def isAlphanum (c : CodePoint) : Bool := c.isAlpha || c.isDigit

/-- An ASCII capital as a small letter. -/
def toLower : CodePoint → CodePoint
  | scalar c => scalar c.toLower
  | surrogate n => surrogate n

@[simp] theorem toNat_scalar (c : Char) : (scalar c).toNat = c.toNat := rfl

theorem toNat_bounds_scalar (c : Char) :
    c.toNat < 0xd800 ∨ (0xdfff < c.toNat ∧ c.toNat < 0x110000) := c.valid

theorem isSurrogate_iff (c : CodePoint) :
    c.isSurrogate = true ↔ 0xd800 ≤ c.toNat ∧ c.toNat < 0xe000 := by
  cases c with
  | scalar c =>
    have hc := toNat_bounds_scalar c
    simp only [isSurrogate, toNat, Bool.false_eq_true, false_iff]
    omega
  | surrogate n => simp only [isSurrogate, toNat, true_iff]; omega

theorem toNat_inj {a b : CodePoint} : a.toNat = b.toNat ↔ a = b := by
  refine ⟨fun h => ?_, fun h => h ▸ rfl⟩
  cases a with
  | scalar a =>
    cases b with
    | scalar b => rw [Char.toNat_inj.1 h]
    | surrogate n =>
      have ha := toNat_bounds_scalar a
      simp only [toNat] at h
      omega
  | surrogate m =>
    cases b with
    | scalar b =>
      have hb := toNat_bounds_scalar b
      simp only [toNat] at h
      omega
    | surrogate n =>
      simp only [toNat] at h
      rw [Fin.ext (by omega : m.val = n.val)]

theorem toNat_lt (c : CodePoint) : c.toNat < 0x110000 := by
  cases c with
  | scalar c =>
    have hc := toNat_bounds_scalar c
    rw [toNat]
    omega
  | surrogate n =>
    rw [toNat]
    omega

@[simp] theorem ofNat_toNat (c : CodePoint) : ofNat c.toNat = c := by
  cases c with
  | scalar c =>
    have hc := toNat_bounds_scalar c
    rw [toNat, ofNat, dif_neg (by omega), Char.ofNat_toNat]
  | surrogate n =>
    have hn := n.isLt
    simp only [toNat, ofNat, Nat.add_sub_cancel_left]
    rw [dif_pos (by omega)]

theorem isDigit_iff (c : CodePoint) : c.isDigit = true ↔ 48 ≤ c.toNat ∧ c.toNat ≤ 57 := by
  simp [isDigit]

theorem isUpper_iff (c : CodePoint) : c.isUpper = true ↔ 65 ≤ c.toNat ∧ c.toNat ≤ 90 := by
  simp [isUpper]

theorem isLower_iff (c : CodePoint) : c.isLower = true ↔ 97 ≤ c.toNat ∧ c.toNat ≤ 122 := by
  simp [isLower]

end CodePoint

end LittleMan
