import LightClient.Binary64

/-!
# Shortest decimal text of a floating-point number

The text has the fewest significant digits that still read back as the number, and of several such
the nearest to it. It is positional when the point falls within or just beside the digits, and
scientific otherwise.
-/
namespace LightClient.Binary64

/-- A decimal number `digits * 10 ^ power`. -/
structure Decimal where
  digits : Nat
  power : Int
  deriving DecidableEq, Repr

namespace Decimal

def num (d : Decimal) : Nat := d.digits * tenTo d.power.toNat

def den (d : Decimal) : Nat := tenTo (-d.power).toNat

/-- The same number without trailing zero digits, of which at most `fuel` are dropped. -/
def strip : Nat → Decimal → Decimal
  | fuel + 1, d =>
    if d.digits % 10 = 0 ∧ d.digits ≠ 0 then strip fuel ⟨d.digits / 10, d.power + 1⟩ else d
  | 0, d => d

end Decimal

/-- Whether a decimal number rounds to `x`: it is no further away than halfway to a neighbour, where
the halfway points belong to an even mantissa. -/
def isNear (x : Binary64) (d : Decimal) : Bool :=
  let below := if x.mantissa = leastFull ∧ x.exponent ≠ -1074 then 1 else 2
  let scale := d.den <<< x.exponent.toNat
  let low := (4 * x.mantissa - below) * scale
  let high := (4 * x.mantissa + 2) * scale
  let point := 4 * d.num * x.den
  if x.mantissa % 2 = 0 then low ≤ point ∧ point ≤ high else low < point ∧ point < high

/-- The power of ten of the first digit of a number below one, at least `-(j + fuel)`. -/
def leadingPower (num den : Nat) : Nat → Nat → Int
  | 0, j => -(j : Int)
  | fuel + 1, j => if den ≤ num * tenTo j then -(j : Int) else leadingPower num den fuel (j + 1)

/-- The power of ten of the first significant digit. -/
def decimalPower (x : Binary64) : Int :=
  if x.den ≤ x.num then (Nat.toDigits 10 (x.num / x.den)).length - 1
  else leadingPower x.num x.den 330 1

/-- The neighbour of `x` with `count` digits that rounds to `x`; of two the nearer, and from a tie
the one with an even last digit. -/
def withDigits? (x : Binary64) (count : Nat) : Option Decimal :=
  let power := x.decimalPower - count + 1
  let num := x.num * tenTo (-power).toNat
  let den := x.den * tenTo power.toNat
  let floor : Decimal := ⟨num / den, power⟩
  let ceiling : Decimal := ⟨num / den + 1, power⟩
  let nearest : Decimal := ⟨roundDiv num den, power⟩
  if x.isNear nearest then some nearest
  else if x.isNear floor then some floor
  else if x.isNear ceiling then some ceiling
  else none

/-- The decimal number with the fewest digits that rounds to `x`. Seventeen digits always do. -/
def shortest (x : Binary64) : Decimal :=
  let found := (List.range 17).findSome? fun n => x.withDigits? (n + 1)
  (found.getD ⟨0, 0⟩).strip 17

/-- The decimal text of a number, which always shows a point or an exponent. -/
def text (x : Binary64) : List Char :=
  let sign := if x.negative then ['-'] else []
  if x.mantissa = 0 then sign ++ ['0', '.', '0']
  else
    let d := x.shortest
    let digits := Nat.toDigits 10 d.digits
    let count : Int := digits.length
    let point := count + d.power
    sign ++
      if 0 ≤ d.power ∧ point ≤ 16 then
        digits ++ List.replicate d.power.toNat '0' ++ ['.', '0']
      else if 0 < point ∧ point ≤ 16 then
        digits.take point.toNat ++ '.' :: digits.drop point.toNat
      else if -5 < point ∧ point ≤ 0 then
        '0' :: '.' :: List.replicate (-point).toNat '0' ++ digits
      else
        let exponent := 'e' :: (toString (point - 1)).toList
        match digits with
        | [only] => only :: exponent
        | first :: rest => first :: '.' :: rest ++ exponent
        | [] => []

end LightClient.Binary64
