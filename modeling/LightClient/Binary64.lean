/-!
# Finite binary floating-point numbers

A number is `mantissa * 2 ^ exponent` with a sign, where the mantissa has at most 53 bits and the
exponent is at least -1074. Every operation computes its exact quotient of natural numbers and
rounds once, to the nearest such number and from a tie to the even mantissa.
-/
namespace LightClient

/-- A finite number of the binary64 format. -/
structure Binary64 where
  negative : Bool
  mantissa : Nat
  exponent : Int
  deriving DecidableEq, Repr

namespace Binary64

/-- The numerator of the magnitude. -/
def num (x : Binary64) : Nat := x.mantissa <<< x.exponent.toNat

/-- The denominator of the magnitude. -/
def den (x : Binary64) : Nat := 1 <<< (-x.exponent).toNat

/-- The least mantissa that uses all 53 bits. -/
def leastFull : Nat := 1 <<< 52

/-- A power of ten. -/
def tenTo (n : Nat) : Nat := Nat.pow 10 n

/-- The quotient of `num` and `den` rounded to the nearest whole number, a tie to the even one. -/
def roundDiv (num den : Nat) : Nat :=
  let q := num / den
  let twice := 2 * (num % den)
  if twice > den ∨ (twice = den ∧ q % 2 = 1) then q + 1 else q

/-- The exponent at which the quotient of `num` and `den` has a mantissa of 53 bits, but not less
than that of the smallest numbers. -/
def exponentOf (num den : Nat) : Int :=
  let e : Int := (num.log2 : Int) - den.log2 - 52
  let e := if num <<< (-e).toNat < leastFull * (den <<< e.toNat) then e - 1 else e
  max e (-1074)

/-- The nearest number to the quotient of `num` and `den`, or nothing above the largest one. -/
def ofRatio? (negative : Bool) (num den : Nat) : Option Binary64 :=
  if num = 0 then some ⟨negative, 0, -1074⟩
  else
    let e := exponentOf num den
    let m := roundDiv (num <<< (-e).toNat) (den <<< e.toNat)
    let (m, e) := if m = 2 * leastFull then (leastFull, e + 1) else (m, e)
    if e > 971 then none else some ⟨negative, m, e⟩

/-- The number scaled up by the power of ten nearest to `10 ^ n`, for `n` at most 308. -/
def scaleUp? (x : Binary64) (n : Nat) : Option Binary64 :=
  (ofRatio? false (tenTo n) 1).bind fun power =>
    ofRatio? x.negative (x.num * power.num) (x.den * power.den)

/-- The number scaled down by the power of ten nearest to `10 ^ n`, for `n` at most 308. -/
def scaleDown? (x : Binary64) (n : Nat) : Option Binary64 :=
  (ofRatio? false (tenTo n) 1).bind fun power =>
    ofRatio? x.negative (x.num * power.den) (x.den * power.num)

/-- The number scaled down by `10 ^ n`, in steps of 308 places as long as it is not zero. -/
def scaleDownBy? (x : Binary64) (n : Nat) : Option Binary64 :=
  if n ≤ 308 then x.scaleDown? n
  else if x.mantissa = 0 then some x
  else (x.scaleDown? 308).bind fun y => scaleDownBy? y (n - 308)
termination_by n

/-- The number with the given significant digits and power of ten. The digits are rounded before
they are scaled, so the result may differ from the nearest number in its last bits. Nothing is
returned when it would be too large. -/
def ofDecimal? (negative : Bool) (digits : Nat) (power : Int) : Option Binary64 :=
  (ofRatio? negative digits 1).bind fun x =>
    if power < 0 then x.scaleDownBy? (-power).toNat
    else if power ≤ 308 then x.scaleUp? power.toNat
    else if digits = 0 then some x
    else none

end Binary64

end LightClient
