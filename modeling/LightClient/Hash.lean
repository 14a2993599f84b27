import LightClient.Bytes.Hex
import LightClient.Digest.Keccak256
import LightClient.Digest.Sha256

/-!
# Hashes

A hash is a digest of exactly 32 bytes, written as 64 lower-case hexadecimal digits. Receipts,
anchors and handover messages are hashed with the network's digest, which is one of two.

Module `types::hash` of the specification (sections 3 and 10.7): `Hash` with `from_hex`, `to_hex`,
`short` and `is_zero`, and `HashAlgorithm` with `digest` and `combine`.
-/
namespace LightClient

/-- A 32-byte digest. -/
structure Hash where
  bytes : Bytes
  length_bytes : bytes.length = 32
  deriving DecidableEq

namespace Hash

/-- Why bytes or a text are no hash. -/
inductive Error where
  | wrongLength (length : Nat)
  | badHex (cause : Hex.Error)
  deriving DecidableEq, Repr

def Error.message : Error → String
  | .wrongLength length => "Hash must be 32 bytes, got " ++ toString length
  | .badHex cause => "Invalid hex in hash: " ++ cause.message

/-- The hash of 32 zero bytes, which stands for a missing value. -/
def zero : Hash := ⟨List.replicate 32 0, List.length_replicate⟩

def isZero (h : Hash) : Bool := h = zero

def ofBytes (bytes : Bytes) : Except Error Hash :=
  if h : bytes.length = 32 then .ok ⟨bytes, h⟩ else .error (.wrongLength bytes.length)

/-- Reads 64 hexadecimal digits of either case, with or without a leading `0x`. A wrong length is
told in bytes, half the number of characters' bytes. -/
def ofHex (text : String) : Except Error Hash :=
  let digits := Hex.dropMark text
  if digits.length = 64 then
    match Hex.decode digits with
    | .ok bytes => ofBytes bytes
    | .error cause => .error (.badHex cause)
  else .error (.wrongLength (digits.length / 2))

def toHex (h : Hash) : String := Hex.encode h.bytes

/-- The first four bytes in hexadecimal form, for display only. -/
def short (h : Hash) : String := Hex.encode (h.bytes.take 4)

/-- The form that names the type, for diagnostics. -/
def describe (h : Hash) : String := "Hash(" ++ h.toHex ++ ")"

instance : ToString Hash := ⟨toHex⟩

end Hash

/-- The digest that a network commits with. -/
inductive HashAlgorithm where
  | sha256
  | keccak256
  deriving DecidableEq, Repr

namespace HashAlgorithm

def digest : HashAlgorithm → Bytes → Hash
  | .sha256, data => ⟨Sha256.digest data, Sha256.length_digest data⟩
  | .keccak256, data => ⟨Keccak256.digest data, Keccak256.length_digest data⟩

/-- The digest of two hashes one after the other. -/
def combine (algorithm : HashAlgorithm) (left right : Hash) : Hash :=
  algorithm.digest (left.bytes ++ right.bytes)

end HashAlgorithm

end LightClient
