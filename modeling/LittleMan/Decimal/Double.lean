/-! Numbers with a fraction, held in double precision. Their values are rational numbers; reading a
decimal and adding round to the nearest double. -/

namespace LittleMan

/-- The number `mantissa * 2 ^ exponent` with a sign. The mantissa has at most 53 bits, and 53 of them
unless the exponent is the least one, -1074. The number `2 ^ 1024` stands for all that is too large, and
the exponent 973 for what is no number. -/
structure Double where
  negative : Bool
  mantissa : Nat
  exponent : Int
  deriving DecidableEq, Repr

namespace Double

def zero : Double := ⟨false, 0, -1074⟩

def infinite (negative : Bool) : Double := ⟨negative, Nat.pow 2 52, 972⟩

def isInfinite (x : Double) : Bool := x.exponent == 972

def nan : Double := ⟨false, 1, 973⟩

def isNaN (x : Double) : Bool := x.exponent == 973

def isZero (x : Double) : Bool := x.mantissa == 0

def size (x : Double) : Nat × Nat :=
  if 0 ≤ x.exponent then (x.mantissa * Nat.pow 2 x.exponent.toNat, 1)
  else (x.mantissa, Nat.pow 2 (-x.exponent).toNat)

/-- Whether a number is less than zero, which zero with a sign is not. -/
def isNegative (x : Double) : Bool := x.negative && !x.isZero

def toRat (x : Double) : Rat :=
  let (n, d) := x.size
  let r : Rat := (n : Rat) / (d : Rat)
  if x.negative then -r else r

/-- The whole number nearest to a quotient, of two the even one. -/
def roundHalfEven (num den : Nat) : Nat :=
  let q := num / den
  let twice := 2 * (num % den)
  if twice < den ∨ (twice = den ∧ q % 2 = 0) then q else q + 1

def scaled (num den : Nat) (exponent : Int) : Nat × Nat :=
  if 0 ≤ exponent then (num, den * Nat.pow 2 exponent.toNat)
  else (num * Nat.pow 2 (-exponent).toNat, den)

def ofQuotient (negative : Bool) (num den : Nat) : Double :=
  if num = 0 then ⟨negative, 0, -1074⟩
  else
    let low : Int := max (-1074) ((num.log2 : Int) - den.log2 - 53)
    let (n, d) := scaled num den low
    let exponent := if Nat.pow 2 53 ≤ n / d then low + 1 else low
    let (n, d) := scaled num den exponent
    let m := roundHalfEven n d
    let (m, exponent) := if m = Nat.pow 2 53 then (Nat.pow 2 52, exponent + 1) else (m, exponent)
    if 971 < exponent then infinite negative else ⟨negative, m, exponent⟩

/-- The double nearest to `digits * 10 ^ power`, where `digits` is written with `count` digits. -/
def ofDecimal (negative : Bool) (digits count : Nat) (power : Int) : Double :=
  if digits = 0 ∨ count + power < -330 then ⟨negative, 0, -1074⟩
  else if 330 < power then infinite negative
  else if 0 ≤ power then ofQuotient negative (digits * Nat.pow 10 power.toNat) 1
  else ofQuotient negative digits (Nat.pow 10 (-power).toNat)

def tooLarge (n : Int) : Bool := Nat.pow 2 1024 - Nat.pow 2 970 ≤ n.natAbs

/-- The sum with a whole number. What is too large, or no number, stays so. -/
def add (x : Double) (n : Int) : Double :=
  if x.isInfinite || x.isNaN then x
  else
    let r := x.toRat + n
    ofQuotient (r < 0) r.num.natAbs r.den

end Double

end LittleMan
