import LightClient.Ed25519.Field

/-!
# Points of the twisted Edwards curve

The curve is `-x² + y² = 1 + d x² y²` over the integers modulo `prime`. A point is kept as
`(X : Y : Z : T)` with `x = X / Z`, `y = Y / Z` and `x y = T / Z`. The addition formula has no
exceptional cases, so it also doubles and adds the neutral element.
-/
namespace LightClient.Ed25519

/-- A curve point in extended coordinates. -/
structure Point where
  x : Nat
  y : Nat
  z : Nat
  t : Nat

namespace Point
open LightClient.Ed25519.Field

/-- The constant `d` of the curve equation. -/
def curveD : Nat :=
  37095705934669439343138083508754565189542113879843219016388785533085940283555

/-- The point with the given affine coordinates. -/
def ofAffine (x y : Nat) : Point := ⟨x, y, 1, mul x y⟩

/-- The neutral element. -/
def zero : Point := ⟨0, 1, 1, 0⟩

/-- The generator of the group the signatures live in; its `y` is four fifths. -/
def base : Point :=
  ofAffine 15112221349535400772501151409588531511454012693041857206046113283949847762202
    46316835694926478169428394003475163141307993866256225615783033603165251855960

def add (p q : Point) : Point :=
  let a := mul (sub p.y p.x) (sub q.y q.x)
  let b := mul (Field.add p.y p.x) (Field.add q.y q.x)
  let c := mul (mul p.t (2 * curveD % prime)) q.t
  let d := mul (2 * p.z) q.z
  let e := sub b a
  let f := sub d c
  let g := Field.add d c
  let h := Field.add b a
  ⟨mul e f, mul g h, mul f g, mul e h⟩

def neg (p : Point) : Point := ⟨Field.neg p.x, p.y, p.z, Field.neg p.t⟩

/-- `n` times `p` for `n` below 2²⁵⁶, by doubling along the binary digits of `n`. -/
def smul (n : Nat) (p : Point) : Point :=
  (bits 256 n).foldl (fun r bit => if bit then add (add r r) p else add r r) zero

/-- The weight of the highest bit of 32 bytes. -/
def highBit : Nat := 1 <<< 255

/-- The 32 bytes of a point: `y`, least significant byte first, with the lowest bit of `x` as the
highest bit. -/
def encode (p : Point) : Bytes :=
  let scale := inv p.z
  Bytes.littleEndian 32 (mul p.y scale + highBit * (mul p.x scale % 2))

/-- The point that 32 bytes stand for. The number for `y` may lie above `prime`, and the sign bit of
`x = 0` is not looked at. -/
def decode? (bytes : Bytes) : Option Point :=
  let n := Bytes.ofLittleEndian bytes
  let y := n % highBit % prime
  let y2 := mul y y
  (sqrtRatio? (sub y2 1) (Field.add (mul curveD y2) 1)).map fun x =>
    ofAffine (if n / highBit % 2 = 1 then Field.neg x else x) y

end Point

end LightClient.Ed25519
