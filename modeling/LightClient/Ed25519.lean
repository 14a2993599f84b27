import LightClient.Digest.Sha512
import LightClient.Ed25519.Point

/-!
# Ed25519 signatures

A signature is a curve point `R` followed by a number `S`. It is checked without the cofactor: the
point `S B - k A` has to have exactly the bytes of `R`, which is never decoded itself.
-/
namespace LightClient.Ed25519

/-- The order of the base point. -/
def order : Nat := 1 <<< 252 + 27742317777372353535851937790883648493

/-- The number that ties a signature to its key and message. -/
def challenge (commitment key message : Bytes) : Nat :=
  Bytes.ofLittleEndian (Sha512.digest (commitment ++ key ++ message)) % order

/-- Whether `signature` is a signature of `message` under `key`. A key has to be 32 bytes that stand
for a curve point, a signature 64 bytes whose number `S` is below `order`. -/
def verify (key message signature : Bytes) : Bool :=
  if key.length = 32 ∧ signature.length = 64 then
    let commitment := signature.take 32
    let s := Bytes.ofLittleEndian (signature.drop 32)
    match Point.decode? key with
    | some point =>
      decide (s < order) &&
        ((Point.base.smul s).add (point.neg.smul (challenge commitment key message))).encode
          == commitment
    | none => false
  else false

end LightClient.Ed25519
