import LightClient.Bytes

/-!
# Arithmetic modulo 2²⁵⁵ − 19

Field elements are natural numbers; every operation returns the representative below `prime`.
-/
namespace LightClient.Ed25519

/-- The size of the field the curve lives in. -/
def prime : Nat := 1 <<< 255 - 19

/-- The binary digits of the low `width` bits of `n`, most significant first. -/
def bits (width n : Nat) : List Bool :=
  (List.range width).reverse.map n.testBit

namespace Field

def add (a b : Nat) : Nat := (a + b) % prime

def sub (a b : Nat) : Nat := (a + (prime - b % prime)) % prime

def mul (a b : Nat) : Nat := a * b % prime

def neg (a : Nat) : Nat := (prime - a % prime) % prime

/-- `a` to the power `e` for exponents below 2²⁵⁵, by squaring along the binary digits of `e`. -/
def pow (a e : Nat) : Nat :=
  (bits 255 e).foldl (fun r bit => if bit then mul (mul r r) a else mul r r) 1

/-- The inverse of `a`, and zero for zero. -/
def inv (a : Nat) : Nat := pow a (prime - 2)

/-- A square root of minus one. -/
def sqrtMinusOne : Nat :=
  19681161376707505956807079304988542015446066515923890162744021073123829784752

/-- The even root `x` of `v * x² = u`, if the quotient of `u` and `v` is a square. -/
def sqrtRatio? (u v : Nat) : Option Nat :=
  let v3 := mul (mul v v) v
  let v7 := mul (mul v3 v3) v
  let root := mul (mul u v3) (pow (mul u v7) ((prime - 5) / 8))
  let check := mul v (mul root root)
  let even (x : Nat) : Nat := if x % 2 = 0 then x else neg x
  if check = u then some (even root)
  else if check = neg u then some (even (mul root sqrtMinusOne))
  else none

end Field

end LightClient.Ed25519
