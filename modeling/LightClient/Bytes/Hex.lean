import LightClient.Bytes
import LightClient.Text.Quoted

/-!
# Hexadecimal text of byte strings

Every byte is written as two digits, the high one first. Writing uses lower case; reading takes
either case and works on the UTF-8 bytes of the text, so that a position is a number of bytes.
-/
namespace LightClient.Hex

/-- Why a text is not the hexadecimal form of a byte string. -/
inductive Error where
  | oddLength
  | badDigit (byte : UInt8) (position : Nat)
  deriving DecidableEq, Repr

/-- The offending byte is shown as the character with its number. -/
def Error.message : Error → String
  | .oddLength => "Odd number of digits"
  | .badDigit byte position =>
    "Invalid character " ++ Text.quotedChar (Char.ofNat byte.toNat)
      ++ " at position " ++ toString position

/-- The value of a byte that is an ASCII digit of base sixteen. -/
def value? (byte : UInt8) : Option Nat :=
  let n := byte.toNat
  if 48 ≤ n ∧ n ≤ 57 then some (n - 48)
  else if 65 ≤ n ∧ n ≤ 70 then some (n - 55)
  else if 97 ≤ n ∧ n ≤ 102 then some (n - 87)
  else none

/-- The two digits of a byte. -/
def digits (byte : UInt8) : List Char :=
  [Nat.digitChar (byte.toNat / 16), Nat.digitChar (byte.toNat % 16)]

/-- The lower-case hexadecimal form of a byte string. -/
def encode (bytes : Bytes) : String := String.ofList (bytes.flatMap digits)

/-- Reads pairs of digits; the first pair stands at `position`. -/
def decodeFrom (position : Nat) : Bytes → Except Error Bytes
  | [] => .ok []
  | [_] => .error .oddLength
  | high :: low :: rest =>
    match value? high, value? low with
    | none, _ => .error (.badDigit high position)
    | some _, none => .error (.badDigit low (position + 1))
    | some h, some l => (decodeFrom (position + 2) rest).map (UInt8.ofNat (16 * h + l) :: ·)

/-- The byte string that a hexadecimal text stands for. An odd length is found before any digit is
looked at. -/
def decode (text : Bytes) : Except Error Bytes :=
  if text.length % 2 = 1 then .error .oddLength else decodeFrom 0 text

/-- The text without one leading `0x`. -/
def dropMark (text : String) : Bytes :=
  match Bytes.ofText text with
  | 0x30 :: 0x78 :: rest => rest
  | bytes => bytes

/-- The byte string of a hexadecimal text that may start with `0x`. -/
def bytes? (text : String) : Option Bytes := (decode (dropMark text)).toOption

end LightClient.Hex
