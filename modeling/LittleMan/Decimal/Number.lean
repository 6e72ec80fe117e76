import LittleMan.Decimal.Double

/-! Numbers, whole or in double precision. They are compared by value, without rounding; what is no number
compares with nothing. -/

namespace LittleMan

inductive Number where
  | whole (n : Int)
  | real (x : Double)
  deriving DecidableEq, Repr

namespace Number

/-- Zero for a number that has a value; one or minus one for what is too large, by its sign. -/
def excess : Number → Int
  | whole _ => 0
  | real x => if x.isInfinite then (if x.negative then -1 else 1) else 0

def value : Number → Rat
  | whole n => n
  | real x => if x.isInfinite then 0 else x.toRat

def isNaN : Number → Bool
  | whole _ => false
  | real x => x.isNaN

def same (a b : Number) : Bool :=
  !a.isNaN && !b.isNaN && decide (a.excess = b.excess ∧ a.value = b.value)

def lt (a b : Number) : Bool :=
  !a.isNaN && !b.isNaN &&
    decide (a.excess < b.excess ∨ (a.excess = b.excess ∧ a.value < b.value))

def le (a b : Number) : Bool := a.lt b || a.same b

theorem same_whole (m n : Int) : (whole m).same (whole n) = true ↔ m = n := by
  simp [same, isNaN, excess, value]

theorem lt_whole (m n : Int) : (whole m).lt (whole n) = true ↔ m < n := by
  simp only [lt, isNaN, excess, value, Bool.not_false, Bool.true_and, decide_eq_true_eq,
    Int.lt_irrefl, true_and, false_or, Rat.intCast_lt_intCast]

theorem le_whole (m n : Int) : (whole m).le (whole n) = true ↔ m ≤ n := by
  rw [le, Bool.or_eq_true, same_whole, lt_whole]
  omega

end Number

end LittleMan
