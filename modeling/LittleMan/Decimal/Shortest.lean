import LittleMan.Decimal.Double

/-! The shortest decimal that reads back as a given double. For each number of digits in turn the two
decimals next to the double are tried; a decimal reads back when it lies between the halfway points to
the double's neighbours. -/

namespace LittleMan

namespace Double

/-- Whether `digits * 10 ^ power` lies among the reals that round to `x`, for a positive `x`. -/
def readsBack (x : Double) (digits : Nat) (power : Int) : Bool :=
  -- Everything is counted in quarters of the last place of `x`.
  let low := 4 * x.mantissa - (if x.mantissa = Nat.pow 2 52 ∧ -1074 < x.exponent then 1 else 2)
  let high := 4 * x.mantissa + 2
  let q := x.exponent - 2
  let unit := if 0 ≤ q then Nat.pow 2 q.toNat else 1
  let scale := if 0 ≤ q then 1 else Nat.pow 2 (-q).toNat
  let up := if 0 ≤ power then Nat.pow 10 power.toNat else 1
  let down := if 0 ≤ power then 1 else Nat.pow 10 (-power).toNat
  let value := digits * up * scale
  let (a, b) := (low * unit * down, high * unit * down)
  if x.mantissa % 2 = 0 then a ≤ value && value ≤ b else a < value && value < b

/-- The exponent of the leading decimal digit of a positive quotient. -/
def leadingPower (num den : Nat) : Int :=
  if den ≤ num then (Nat.toDigits 10 (num / den)).length - 1
  else
    let count := (Nat.toDigits 10 (den / num)).length
    if num * Nat.pow 10 (count - 1) = den then 1 - count else -count

/-- The decimal of `count` digits that reads back as `x`, the nearest one if there are two. -/
def ofLength? (x : Double) (count : Nat) : Option (Nat × Int) :=
  let (num, den) := x.size
  let power := leadingPower num den + 1 - count
  let (n, d) :=
    if 0 ≤ power then (num, den * Nat.pow 10 power.toNat)
    else (num * Nat.pow 10 (-power).toNat, den)
  let below := n / d
  let rest := 2 * (n % d)
  let nearBelow := rest < d || (rest == d && below % 2 == 0)
  let order := if nearBelow then [below, below + 1] else [below + 1, below]
  (order.find? fun digits => x.readsBack digits power).map (·, power)

/-- The fewest digits that read back as a positive double, and the power of ten of the last one. -/
def shortest (x : Double) : Nat × Int :=
  ((List.range 17).findSome? fun i => x.ofLength? (i + 1)).getD (0, 0)

end Double

/-- Decimals are positional from `0.0001` up to sixteen digits before the point, and always show a
point or an exponent. -/
def Double.text (infinity nan : String) (x : Double) : String :=
  let sign := if x.negative then "-" else ""
  if x.isNaN then nan
  else if x.isInfinite then sign ++ infinity
  else if x.isZero then sign ++ "0.0"
  else
    let (digits, power) := x.shortest
    let all := Nat.toDigits 10 digits
    let trimmed := (all.reverse.dropWhile (· == '0')).reverse
    -- The decimal point stands after this many of the digits.
    let point : Int := all.length + power
    let body : List Char :=
      if -4 < point ∧ point ≤ 16 then
        if point ≤ 0 then ("0.".toList) ++ List.replicate (-point).toNat '0' ++ trimmed
        else
          let whole := trimmed.take point.toNat
          let fraction := trimmed.drop point.toNat
          whole ++ List.replicate (point.toNat - whole.length) '0' ++ '.' ::
            (if fraction.isEmpty then ['0'] else fraction)
      else
        let e := point - 1
        let exponent := Nat.toDigits 10 e.natAbs
        trimmed.take 1 ++ (if trimmed.length ≤ 1 then [] else '.' :: trimmed.drop 1) ++
          'e' :: (if e < 0 then '-' else '+') :: List.replicate (2 - exponent.length) '0' ++ exponent
    sign ++ String.ofList body

end LittleMan
