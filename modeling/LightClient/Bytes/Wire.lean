import LightClient.Bytes

/-!
# Wire format of messages

A number is written in groups of seven bits, the lowest first, where all groups but the last are
marked by the highest bit. A byte string in a field is written after the field's tag and its length.

Module `consensus::vote` of the specification (section 10.7): the varints and length-delimited
fields that `sign_bytes` is written with.
-/
namespace LightClient.Wire

/-- The groups of seven bits of `n`, after which at most `more` others may follow the first. -/
def groups : Nat → Nat → Bytes
  | 0, n => [UInt8.ofNat n]
  | more + 1, n =>
    if n < 128 then [UInt8.ofNat n]
    else UInt8.ofNat (n % 128 + 128) :: groups more (n / 128)

/-- A number of 64 bits in as few groups as possible, at most ten. -/
def varint (n : UInt64) : Bytes := groups 9 n.toNat

/-- A byte string as the field with the given tag. -/
def field (tag : UInt8) (payload : Bytes) : Bytes :=
  tag :: varint (UInt64.ofNat payload.length) ++ payload

end LightClient.Wire
