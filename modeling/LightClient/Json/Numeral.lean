import LightClient.Json

/-!
# Numerals

The form of JSON's numbers and the value each stands for. A numeral is a sign, digits without
needless leading zeros, and optionally a fraction and an exponent. Integers are exact. Otherwise the
first digits that fit 64 bits are taken, rounded to a floating-point number, and scaled.
-/
namespace LightClient.Json

/-- The parts of a numeral. -/
structure Numeral where
  negative : Bool
  whole : List Nat
  /-- The digits after the point; empty when there is no point. -/
  fraction : List Nat
  /-- The exponent, if one is written. -/
  exponent : Option Int
  deriving DecidableEq, Repr

namespace Numeral

/-- The leading decimal digits of a text and what follows them. -/
def digits (text : List Char) : List Nat × List Char :=
  ((text.takeWhile Char.isDigit).map fun c => c.toNat - 48, text.dropWhile Char.isDigit)

/-- The number that a list of decimal digits stands for. -/
def valueOf (digits : List Nat) : Nat := digits.foldl (fun n d => 10 * n + d) 0

/-- Reads an exponent with its mark, or nothing at the end of the text. -/
def exponent? : List Char → Option (Option Int)
  | [] => some none
  | mark :: rest =>
    if mark = 'e' ∨ mark = 'E' then
      let (negative, rest) := match rest with
        | '-' :: rest => (true, rest)
        | '+' :: rest => (false, rest)
        | rest => (false, rest)
      match digits rest with
      | ([], _) => none
      | (ds, []) => some (some (if negative then -(valueOf ds : Int) else valueOf ds))
      | (_, _ :: _) => none
    else none

/-- Reads a numeral that fills the whole text. -/
def ofChars? (text : List Char) : Option Numeral := do
  let (negative, rest) := match text with
    | '-' :: rest => (true, rest)
    | rest => (false, rest)
  let (whole, rest) := digits rest
  match whole with
  | [] => none
  | 0 :: _ :: _ => none
  | _ =>
    match rest with
    | '.' :: rest =>
      match digits rest with
      | ([], _) => none
      | (fraction, rest) => return ⟨negative, whole, fraction, ← exponent? rest⟩
    | rest => return ⟨negative, whole, [], ← exponent? rest⟩

/-- The largest integer of 64 bits. -/
def maxWord : Nat := UInt64.size - 1

/-- The number that the leading digits of `digits` make after those of `n`, as far as it fits a
word, and the digits that are left over. -/
def absorb (n : Nat) : List Nat → Nat × List Nat
  | [] => (n, [])
  | d :: rest => if 10 * n + d ≤ maxWord then absorb (10 * n + d) rest else (n, d :: rest)

/-- The floating-point value of a numeral, if it is not too large. -/
def decimal? (x : Numeral) : Option Binary64 :=
  let (n, skipped) := absorb 0 x.whole
  let (m, unused) := absorb n x.fraction
  let taken := x.fraction.length - unused.length
  Binary64.ofDecimal? x.negative m (skipped.length - taken + x.exponent.getD 0)

/-- The JSON value of a numeral. Minus zero is not an integer. -/
def value (x : Numeral) : Json :=
  let n := valueOf x.whole
  if x.fraction = [] ∧ x.exponent = none ∧ x.negative = false ∧ n ≤ maxWord then .integer n
  else if x.fraction = [] ∧ x.exponent = none ∧ x.negative ∧ 0 < n ∧ Int64.minValue.toInt ≤ -n then
    .integer (-n)
  else match x.decimal? with
    | some number => .decimal number
    | none => .unreadable

end Numeral

end LightClient.Json
