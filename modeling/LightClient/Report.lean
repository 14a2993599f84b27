import LightClient.Finality
import LightClient.Genesis
import LightClient.Inclusion

/-!
# Reports on accounts

The report of a verification holds what every layer found, the evidence of the layers that succeeded
and the level of trust that was reached. Only the highest level counts as verified.

Module `types::report` of the specification (sections 3 and 4.6): `TrustLevel` with `assess`, and
`CompleteProof` with `verified`, `layer` and `errors`. The flag `verified` is no field here, as it
always follows from the level.
-/
namespace LightClient

/-- How far the chain of trust reaches for an account. -/
inductive TrustLevel where
  | none
  /-- The entry lies under an anchor of a partition. -/
  | partialBpt
  /-- The partition's root is also anchored in the authority partition. -/
  | partialBvn
  /-- Signed by a quorum of validators that descend from genesis. -/
  | full
  deriving DecidableEq, Repr

namespace TrustLevel

def all : List TrustLevel := [none, partialBpt, partialBvn, full]

def name : TrustLevel → String
  | none => "none"
  | partialBpt => "partial-bpt"
  | partialBvn => "partial-bvn"
  | full => "full"

/-- The place of a level in the order of increasing trust. -/
def rank : TrustLevel → Nat
  | none => 0
  | partialBpt => 1
  | partialBvn => 2
  | full => 3

/-- More trust is greater. -/
instance : Ord TrustLevel := ⟨fun a b => compare a.rank b.rank⟩

/-- The level that follows from which layers hold. Without the first one there is no trust. -/
def assess (included anchored signed traced : Bool) : TrustLevel :=
  if included = false then none
  else if anchored ∧ signed ∧ traced then full
  else if anchored then partialBvn
  else partialBpt

end TrustLevel

/-- When a verification ran and how long its layers took. -/
structure Timing where
  startedAt : UInt64
  totalMicros : UInt64
  layerMicros : Keyed UInt64

/-- The result of verifying an account. -/
structure Report where
  account : Url
  trustLevel : TrustLevel
  findings : List Finding
  inclusion : Option Inclusion
  finality : Option Finality
  timing : Timing

namespace Report

/-- Whether full trust was reached. -/
def verified (r : Report) : Bool := r.trustLevel = .full

/-- The finding of a layer. -/
def finding? (r : Report) (layer : String) : Option Finding :=
  r.findings.find? fun f => f.layer = layer

/-- The layers that ran and failed, with their messages. -/
def errors (r : Report) : List (String × String) :=
  (r.findings.filter fun f => !f.valid && !f.isSkipped).filterMap fun f =>
    f.errorMessage.map fun message => (f.layer, message)

end Report

end LightClient
