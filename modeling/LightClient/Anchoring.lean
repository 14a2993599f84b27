import LightClient.Backend
import LightClient.Finding

/-!
# State commitments and anchors

The second layer requires a root to be the application hash of a block. Unless the authority
partition produced that block, the layer after it requires the root to be anchored in the authority
partition: an anchor's receipt leads from the root to the application hash of an authority block.

Module `inclusion::anchor` of the specification (sections 4.3 and 10.7): `check_state_commitment`,
`verify_state_commitment`, `requires_anchor`, `find_anchor`, `check_anchor` and `verify_anchoring`.
Left out: log events.
-/
namespace LightClient

/-- A root that is proven to be anchored in the authority partition. -/
structure AnchoredRoot where
  anchor : Anchor
  /-- The authority block whose application hash the anchor's receipt reaches. -/
  authorityBlock : Block
  /-- The search that found the anchor. -/
  search : AnchorSearch
  deriving DecidableEq

/-- What anchoring depends on. -/
structure Anchoring where
  algorithm : HashAlgorithm
  authority : Url
  deriving DecidableEq

namespace Anchoring

/-- Whether roots of a partition have to be anchored. -/
def requiresAnchor (a : Anchoring) (partition : Url) : Bool := partition ≠ a.authority

/-- Requires a block to have the height asked for and to commit the root. -/
def checkCommits (partition : Url) (root : Hash) (height : UInt64) (block : Block) :
    Except Failure Unit :=
  if block.height ≠ height then
    .error (.violation (.blockHeightMismatch height block.height))
  else if block.appHash ≠ root then
    .error (.violation (.stateCommitmentMismatch partition.text height root block.appHash))
  else .ok ()

/-- The block of a partition at a height, which has to commit the root. -/
def stateCommitment (backend : Backend) (partition : Url) (root : Hash) (height : UInt64) :
    Inquiry Block := do
  let block ← backend.ask s!"querying block {height} of {partition}" (.block partition height)
  checkCommits partition root height block
  return block

/-- What the second layer finds about a root, and the block if it commits the root. -/
def stateFinding (partition : Url) (height : UInt64) :
    Except Failure Block → Finding × Option Block
  | .ok block =>
    ((Finding.passed Layer.stateCommitment.name)
      |>.withDetail "partition" (.string partition.text)
      |>.withDetail "height" (Json.encode height)
      |>.withDetail "app_hash" (.string block.appHash.toHex)
      |>.withDetail "block_hash" (.string block.blockHash.toHex), some block)
  | .error f =>
    ((Finding.failed Layer.stateCommitment.name f)
      |>.withDetail "partition" (.string partition.text)
      |>.withDetail "height" (Json.encode height), none)

/-- The second layer. -/
def verifyState (backend : Backend) (partition : Url) (root : Hash) (height : UInt64) :
    StateM Journal (Finding × Option Block) := do
  return stateFinding partition height (← (stateCommitment backend partition root height).run)

/-- Whether a text is a spelling of a URL. -/
def spells (text : String) (url : Url) : Bool :=
  match Url.parse text with
  | .ok parsed => parsed = url
  | .error _ => false

/-- Requires an anchor to lead from a root of `source` to a root of the authority partition. -/
def checkAnchor (a : Anchoring) (anchor : Anchor) (source : Url) (root : Hash) :
    Except Failure Unit :=
  let reject (reason : String) : Except Failure Unit :=
    .error (.violation (.anchorRecordMismatch reason))
  if anchor.anchored ≠ root then
    reject s!"anchored hash {anchor.anchored} is not the source root {root}"
  else if anchor.receipt.start ≠ root then
    reject s!"anchor receipt starts at {anchor.receipt.start}, not the source root {root}"
  else if spells anchor.sourcePartition source = false then
    reject ("anchor source " ++ Text.quoted anchor.sourcePartition ++ s!" is not {source}")
  else if spells anchor.targetPartition a.authority = false then
    reject ("anchor target " ++ Text.quoted anchor.targetPartition ++ s!" is not {a.authority}")
  else
    Failure.inContext "anchor receipt does not reproduce the authority root"
      (anchor.receipt.verify a.algorithm)

/-- Checks an anchor that a search has found, and the authority block it leads to. -/
def establish (a : Anchoring) (backend : Backend) (source : Url) (root : Hash)
    (search : AnchorSearch) (anchor : Anchor) : Inquiry AnchoredRoot := do
  a.checkAnchor anchor source root
  let authorityBlock ← ExceptT.mk do
    let block ← (stateCommitment backend a.authority anchor.receipt.anchor
      anchor.receipt.localBlock).run
    return Failure.inContext "authority block does not commit the anchor root" block
  return { anchor, authorityBlock, search }

/-- Tries one search after the other until one has an anchor. Only "not found" leads to the next
search; an anchor that is found but fails a check is not papered over. -/
def findIn (a : Anchoring) (backend : Backend) (source : Url) (root : Hash) :
    List AnchorSearch → Inquiry AnchoredRoot
  | [] => throw (.backend (.notFound s!"anchor of {source} root {root} in {a.authority}"))
  | search :: others => do
    let answer ← ExceptT.lift (backend.exchange (.anchor source a.authority root search))
    match answer with
    | .ok anchor => a.establish backend source root search anchor
    | .error (.notFound _) => a.findIn backend source root others
    | .error (.unavailable reason) =>
      throw (.context s!"searching {search.title} anchors of {source}"
        (.backend (.unavailable reason)))

/-- Finds the anchor of a root, first among the intermediate chains and then in the chain of the
authority partition. -/
def find (a : Anchoring) (backend : Backend) (source : Url) (root : Hash) : Inquiry AnchoredRoot :=
  a.findIn backend source root [.intermediate, .authorityChain]

/-- What the anchor layer finds about a root. -/
def anchorFinding (a : Anchoring) (source : Url) (root : Hash) :
    Except Failure AnchoredRoot → Finding × Option AnchoredRoot
  | .ok anchored =>
    ((Finding.passed Layer.partitionAnchor.name)
      |>.withDetail "source_partition" (.string source.text)
      |>.withDetail "target_partition" (.string a.authority.text)
      |>.withDetail "source_root" (.string root.toHex)
      |>.withDetail "authority_root" (.string anchored.anchor.receipt.anchor.toHex)
      |>.withDetail "authority_height" (Json.encode anchored.anchor.receipt.localBlock)
      |>.withDetail "search" (.string anchored.search.name), some anchored)
  | .error f =>
    ((Finding.failed Layer.partitionAnchor.name f)
      |>.withDetail "source_partition" (.string source.text)
      |>.withDetail "source_root" (.string root.toHex)
      |>.withDetail "anchor_rejected" (.bool (f.kind = .invariantViolation)), none)

/-- The anchor layer. -/
def verifyAnchor (a : Anchoring) (backend : Backend) (source : Url) (root : Hash) :
    StateM Journal (Finding × Option AnchoredRoot) := do
  return a.anchorFinding source root (← (a.find backend source root).run)

end Anchoring

end LightClient
