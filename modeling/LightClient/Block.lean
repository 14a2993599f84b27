import LightClient.Hash

/-!
# Blocks and commits

Blocks and commits as a backend reports them; nothing in them is trusted by itself. The application
hash counts once its path leads to the block hash, and the block hash once it is signed.

Module `types::consensus` of the specification (sections 3 and 10.7): `BlockRecord`, `HeaderProof`,
`PartSetHeader`, `BlockCommit` and `ValidatorSignature`.
-/
namespace LightClient

/-- The part set of a block, which its block id commits. -/
structure PartSet where
  total : UInt32
  hash : Bytes
  deriving DecidableEq

/-- What a block has when its record tells no part set. -/
def PartSet.none : PartSet := ⟨0, []⟩

/-- The Merkle path of a field of the header. -/
structure HeaderPath where
  total : UInt64
  index : UInt64
  /-- The siblings from the leaf outward. -/
  aunts : List Hash
  deriving DecidableEq

/-- A block of a partition. -/
structure Block where
  height : UInt64
  /-- The hash of the header, which validators sign. -/
  blockHash : Hash
  /-- The hash of the application's state in this header. -/
  appHash : Hash
  appHashPath : HeaderPath
  /-- The partition that produced the block, if the record tells. -/
  sourcePartition : Option String
  chainId : String
  partSet : PartSet
  deriving DecidableEq

/-- A signature attributed to a validator. -/
structure Precommit where
  address : Bytes
  signature : Bytes
  /-- Nanoseconds since the epoch. -/
  timestamp : Int64
  deriving DecidableEq

/-- The signatures gathered for a block. -/
structure Commit where
  height : UInt64
  round : Int32
  blockHash : Hash
  precommits : List Precommit
  deriving DecidableEq

end LightClient
