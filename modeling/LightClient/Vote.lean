import LightClient.Block
import LightClient.Bytes.Wire

/-!
# Sign bytes of a precommit

Validators sign not the block itself but a canonical vote: its message in wire format, after the
message's length. Zero numbers and empty byte strings are left out; the part set and the timestamp
are written even when nothing is left of them.

Module `consensus::vote` of the specification (sections 4.4 and 10.7): `CanonicalVote` with
`sign_bytes`.
-/
namespace LightClient

/-- Everything that a precommit signature is about. -/
structure Vote where
  height : Int64
  round : Int32
  blockHash : Hash
  partSet : PartSet
  /-- Nanoseconds since the epoch. -/
  timestamp : Int64
  chainId : String
  deriving DecidableEq

namespace Vote

/-- The type of a vote that commits a block. -/
def precommitType : UInt64 := 2

/-- A number as a field, unless it is zero. -/
def numberField (tag : UInt8) (n : UInt64) : Bytes :=
  if n = 0 then [] else tag :: Wire.varint n

/-- A number as a field of eight bytes, unless it is zero. -/
def fixedField (tag : UInt8) (n : Int64) : Bytes :=
  if n = 0 then [] else tag :: Bytes.littleEndian 8 n.toUInt64.toNat

/-- A byte string as a field, unless it is empty. -/
def bytesField (tag : UInt8) (bytes : Bytes) : Bytes :=
  if bytes = [] then [] else Wire.field tag bytes

def encodePartSet (p : PartSet) : Bytes :=
  numberField 0x08 p.total.toUInt64 ++ bytesField 0x12 p.hash

def encodeBlockId (v : Vote) : Bytes :=
  Wire.field 0x0a v.blockHash.bytes ++ Wire.field 0x12 (encodePartSet v.partSet)

/-- Whole seconds and the nanoseconds that are left, which are never negative. -/
def encodeTimestamp (timestamp : Int64) : Bytes :=
  let seconds := timestamp.toInt / 1000000000
  let nanos := timestamp.toInt % 1000000000
  numberField 0x08 (Int64.ofInt seconds).toUInt64
    ++ numberField 0x10 (Int64.ofInt nanos).toUInt64

/-- The message without its length. -/
def body (v : Vote) : Bytes :=
  numberField 0x08 precommitType
    ++ fixedField 0x11 v.height
    ++ fixedField 0x19 v.round.toInt64
    ++ Wire.field 0x22 v.encodeBlockId
    ++ Wire.field 0x2a (encodeTimestamp v.timestamp)
    ++ bytesField 0x32 (Bytes.ofText v.chainId)

/-- The bytes that the validator signs. -/
def signBytes (v : Vote) : Bytes := Wire.varint (UInt64.ofNat v.body.length) ++ v.body

end Vote

end LightClient
