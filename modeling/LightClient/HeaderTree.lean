import LightClient.Block
import LightClient.Bytes.Wire
import LightClient.Failure

/-!
# The header tree

The block hash is the root of a Merkle tree over the fields of the header. Leaves and inner nodes
are hashed under different first bytes, and a tree of `n` leaves has the largest power of two below
`n` of them on its left. A block commits its application hash if that hash is the field at its
place.

Module `consensus::header` of the specification (section 10.7): `leaf_hash`, `inner_hash`,
`root_from_leaves`, `root_from_aunts` and `check_app_hash`.
-/
namespace LightClient.HeaderTree

/-- Number of fields in a header. -/
def fieldCount : UInt64 := 14

/-- Position of the application hash among the fields. -/
def appHashField : UInt64 := 10

def leafHash (leaf : Bytes) : Hash := HashAlgorithm.sha256.digest (0x00 :: leaf)

def innerHash (left right : Hash) : Hash :=
  HashAlgorithm.sha256.digest (0x01 :: left.bytes ++ right.bytes)

/-- A byte string as a leaf: a message with one field, or nothing for the empty string. -/
def encodeField (value : Bytes) : Bytes := if value = [] then [] else Wire.field 0x0a value

/-- The largest power of two strictly below `total`, for `total` at least two. -/
def splitPoint (total : Nat) : Nat :=
  let power := 1 <<< total.log2
  if power = total then power / 2 else power

theorem splitPoint_pos {total : Nat} (h : 2 ≤ total) : 0 < splitPoint total := by
  have base : 1 ≤ total.log2 := (Nat.le_log2 (by omega)).2 (by simpa using h)
  have two : 2 ^ 1 ≤ 2 ^ total.log2 := Nat.pow_le_pow_right (by omega) base
  simp only [splitPoint, Nat.one_shiftLeft]
  split <;> omega

theorem splitPoint_lt {total : Nat} (h : 2 ≤ total) : splitPoint total < total := by
  have low : 2 ^ total.log2 ≤ total := Nat.log2_self_le (by omega)
  simp only [splitPoint, Nat.one_shiftLeft]
  split <;> omega

/-- The root of the tree over the given leaves. -/
def root : List Bytes → Hash
  | [] => HashAlgorithm.sha256.digest []
  | [leaf] => leafHash leaf
  | first :: second :: rest =>
    let leaves := first :: second :: rest
    innerHash (root (leaves.take (splitPoint leaves.length)))
      (root (leaves.drop (splitPoint leaves.length)))
termination_by leaves => leaves.length
decreasing_by
  · have := splitPoint_lt (show 2 ≤ rest.length + 1 + 1 by omega)
    simp only [List.length_take, List.length_cons]
    omega
  · have := splitPoint_pos (show 2 ≤ rest.length + 1 + 1 by omega)
    simp only [List.length_drop, List.length_cons]
    omega

/-- The root that is reached from the leaf at `index` of `total` by siblings listed from the root
inward, unless their number does not fit the leaf's place. -/
def rootFromOutermost? (index total : Nat) (leaf : Hash) : List Hash → Option Hash
  | [] => if index < total ∧ total = 1 then some leaf else none
  | aunt :: rest =>
    if index < total ∧ total ≠ 1 then
      let split := splitPoint total
      if index < split then
        (rootFromOutermost? index split leaf rest).map fun left => innerHash left aunt
      else
        (rootFromOutermost? (index - split) (total - split) leaf rest).map fun right =>
          innerHash aunt right
    else none

/-- The root that is reached from the leaf at `index` of `total` by siblings listed from the leaf
outward. -/
def rootFromAunts? (index total : UInt64) (leaf : Hash) (aunts : List Hash) : Option Hash :=
  rootFromOutermost? index.toNat total.toNat leaf aunts.reverse

/-- The block hash that the block's path yields for its application hash. -/
def committedRoot? (block : Block) : Option Hash :=
  let path := block.appHashPath
  if path.total = fieldCount ∧ path.index = appHashField then
    rootFromAunts? path.index path.total (leafHash (encodeField block.appHash.bytes)) path.aunts
  else none

/-- Requires the header with the block's hash to hold the block's application hash. -/
def checkAppHash (block : Block) : Except Failure Unit :=
  if committedRoot? block = some block.blockHash then .ok ()
  else .error
    (.violation (.headerCommitmentMismatch block.height block.blockHash block.appHash))

end LightClient.HeaderTree
