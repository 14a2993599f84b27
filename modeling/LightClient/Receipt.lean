import LightClient.Failure

/-!
# Merkle receipts

A receipt leads from a leaf over the sibling hashes of a Merkle path to the root that it names. To
check it, the path is replayed and the root compared.

Module `inclusion::receipt` of the specification (sections 3 and 4.1): `compute_root`,
`validate_integrity`, `verify` and `combine`.
-/
namespace LightClient

/-- A sibling on a Merkle path and the side it stands on. -/
structure Receipt.Step where
  sibling : Hash
  /-- Whether the sibling is to the right of the running hash. -/
  onRight : Bool
  deriving DecidableEq

/-- A claim that `start` lies under `anchor`. -/
structure Receipt where
  start : Hash
  anchor : Hash
  /-- The block in which the producing partition recorded the anchor. -/
  localBlock : UInt64
  /-- The path from the leaf to the root. -/
  steps : List Receipt.Step
  deriving DecidableEq

namespace Receipt

/-- The longest path that is looked at. -/
def maxSteps : Nat := 1024

/-- The parent of the running hash. -/
def Step.apply (algorithm : HashAlgorithm) (current : Hash) (step : Step) : Hash :=
  if step.onRight then algorithm.combine current step.sibling
  else algorithm.combine step.sibling current

/-- The root that a path reaches from `start`. -/
def replay (algorithm : HashAlgorithm) (start : Hash) (steps : List Step) : Hash :=
  steps.foldl (Step.apply algorithm) start

/-- The root that the receipt's path reaches. -/
def root (algorithm : HashAlgorithm) (r : Receipt) : Hash := replay algorithm r.start r.steps

/-- Whether the path reaches the anchor. Only a path that is too long is a failure. -/
def isIntact (algorithm : HashAlgorithm) (r : Receipt) : Except Failure Bool :=
  if r.steps.length > maxSteps then
    .error (.malformed s!"receipt has {r.steps.length} entries, limit is {maxSteps}")
  else .ok (r.root algorithm = r.anchor)

/-- Requires the path to reach the anchor. -/
def verify (algorithm : HashAlgorithm) (r : Receipt) : Except Failure Unit :=
  match r.isIntact algorithm with
  | .error f => .error f
  | .ok true => .ok ()
  | .ok false => .error (.violation (.receiptRootMismatch (r.root algorithm) r.anchor))

/-- The receipt from the leaf of `first` to the anchor of `second`, which has to start where `first`
ends. -/
def combine (first second : Receipt) : Except Failure Receipt :=
  if first.anchor = second.start then
    .ok ⟨first.start, second.anchor, second.localBlock, first.steps ++ second.steps⟩
  else
    .error (.malformed
      s!"cannot combine receipts: anchor {first.anchor} is not the next start {second.start}")

end Receipt

end LightClient
