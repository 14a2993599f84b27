import LightClient.Failure

/-!
# Validators and their voting power

A validator set is a list; its order matters where a set signs. A quorum is strictly more than two
thirds of the set's power.

Modules `types::consensus` and `consensus::validator_chain` of the specification (section 4.5):
`ValidatorInfo`, `total_voting_power`, `quorum_threshold` and the encoding of a set.
-/
namespace LightClient

/-- A member of a validator set. -/
structure Validator where
  address : Bytes
  publicKey : Bytes
  power : Int64
  deriving DecidableEq

namespace Validator

/-- The sum of two powers if it fits 64 bits. -/
def addPower? (a b : Int64) : Option Int64 :=
  let sum := a.toInt + b.toInt
  if Int64.minValue.toInt ≤ sum ∧ sum ≤ Int64.maxValue.toInt then some (Int64.ofInt sum) else none

/-- The power of a set, unless a member has negative power or the sum does not fit. -/
def totalPower? (validators : List Validator) : Option Int64 :=
  validators.foldlM (fun sum v => if v.power < 0 then none else addPower? sum v.power) 0

/-- The least power that is more than two thirds of `total`. -/
def quorumThreshold (total : Int64) : Int64 :=
  Int64.ofInt (max total.toInt 0 * 2 / 3 + 1)

/-- A byte string after its length as four bytes. -/
def encodeBlob (bytes : Bytes) : Bytes := Bytes.bigEndian 4 bytes.length ++ bytes

/-- Address, key and power, each written so that its end is known. -/
def encodeBytes (v : Validator) : Bytes :=
  encodeBlob v.address ++ encodeBlob v.publicKey ++ Bytes.bigEndian 8 v.power.toUInt64.toNat

/-- The size of a set and its members in order. -/
def encodeSet (validators : List Validator) : Bytes :=
  Bytes.bigEndian 4 validators.length ++ validators.flatMap encodeBytes

/-- The member with an address; of several the last one. -/
def find? (validators : List Validator) (address : Bytes) : Option Validator :=
  validators.reverse.find? fun v => v.address == address

end Validator

end LightClient
