import LightClient.Backend
import LightClient.Finding
import LightClient.Partition

/-!
# Inclusion of a chain entry

The first layer: an entry of an account's chain is the leaf of a receipt whose root is an anchor,
and the partition that produced the anchor is known and accepted.

Module `inclusion::entry` of the specification (section 4.2): `build_from_chain_entry`,
`check_consistency`, `check` and `verify`. Left out: log events.
-/
namespace LightClient

/-- A chain entry proven to lie under an anchor of a partition. -/
structure Inclusion where
  scope : Url
  chain : String
  index : UInt64
  /-- The entry's hash. -/
  leaf : Hash
  receipt : Receipt
  anchor : Hash
  localBlock : UInt64
  sourcePartition : String
  deriving DecidableEq

namespace Inclusion

/-- Requires the proof to agree with its receipt and to name an accepted partition. -/
def checkConsistency (p : Inclusion) : Except Failure Unit :=
  if p.leaf ≠ p.receipt.start then
    .error (.violation (.leafMismatch p.leaf p.receipt.start))
  else if p.anchor ≠ p.receipt.anchor then
    .error (.violation (.anchorMismatch p.anchor p.receipt.anchor))
  else if p.localBlock ≠ p.receipt.localBlock then
    .error (.violation (.localBlockMismatch p.localBlock p.receipt.localBlock))
  else if Text.isBlankText p.sourcePartition then
    .error (.violation .emptySourcePartition)
  else if Partition.accepted p.sourcePartition then .ok ()
  else .error (.violation (.unacceptedPartition p.sourcePartition))

/-- All checks of the layer. -/
def check (algorithm : HashAlgorithm) (p : Inclusion) : Except Failure Unit := do
  p.checkConsistency
  Failure.inContext "entry receipt does not reproduce its anchor" (p.receipt.verify algorithm)

/-- What the layer finds about a proof. -/
def finding (algorithm : HashAlgorithm) (p : Inclusion) : Finding :=
  match p.check algorithm with
  | .ok () =>
    (Finding.passed Layer.entryInclusion.name)
      |>.withDetail "scope" (.string p.scope.text)
      |>.withDetail "chain_name" (.string p.chain)
      |>.withDetail "chain_index" (Json.encode p.index)
      |>.withDetail "leaf" (.string p.leaf.toHex)
      |>.withDetail "anchor" (.string p.anchor.toHex)
      |>.withDetail "local_block" (Json.encode p.localBlock)
      |>.withDetail "source_partition" (.string p.sourcePartition)
      |>.withDetail "receipt_entries" (.integer p.receipt.steps.length)
  | .error f =>
    (Finding.failed Layer.entryInclusion.name f).withDetail "scope" (.string p.scope.text)

/-- Requires a chain name that is not blank. -/
def checkChainName (chain : String) : Except Failure Unit :=
  if Text.isBlankText chain then .error (.malformed "chain name is empty") else .ok ()

/-- The receipt of an entry whose hash is not zero. A missing receipt is found first. -/
def entryReceipt (scope : Url) (chain : String) (index : UInt64) (entry : ChainEntry) :
    Except Failure Receipt :=
  match entry.receipt with
  | none => .error (.missingReceipt scope.text chain index)
  | some receipt =>
    if entry.entryHash.isZero then .error (.emptyLeaf scope.text chain index) else .ok receipt

/-- The partition that a block declares as its source, as a URL. -/
def resolvePartition (height : UInt64) (declared : Option String) : Except Failure Url :=
  match declared with
  | none => .error (.partitionResolution height none)
  | some partition =>
    if Text.isBlankText partition = false ∧ Partition.accepted partition then
      match Url.parse partition with
      | .ok url => .ok url
      | .error _ => .error (.partitionResolution height (some partition))
    else .error (.partitionResolution height (some partition))

/-- The proof about an entry that has a receipt, from the partition that produced the receipt's
anchor. -/
def settle (backend : Backend) (scope : Url) (chain : String) (index : UInt64) (entry : ChainEntry)
    (receipt : Receipt) : Inquiry Inclusion := do
  let block ← backend.ask
    s!"resolving source partition of block {receipt.localBlock} under {scope}"
    (.block scope receipt.localBlock)
  let partition ← resolvePartition receipt.localBlock block.sourcePartition
  let proof : Inclusion :=
    { scope, chain, index, leaf := entry.entryHash, receipt, anchor := receipt.anchor
      localBlock := receipt.localBlock, sourcePartition := partition.text }
  proof.checkConsistency
  return proof

/-- Fetches an entry with its receipt and finds the partition that produced the receipt's anchor. -/
def build (backend : Backend) (scope : Url) (chain : String) (index : UInt64) :
    Inquiry Inclusion := do
  checkChainName chain
  let entry ← backend.ask
    (s!"querying entry {index} of chain " ++ Text.quoted chain ++ s!" under {scope}")
    (.chainEntry scope chain index)
  let receipt ← entryReceipt scope chain index entry
  settle backend scope chain index entry receipt

end Inclusion

end LightClient
