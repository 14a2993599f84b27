import LightClient.Backend
import LightClient.Ed25519
import LightClient.Finding

/-!
# Validator sets since genesis

The validator set of the genesis is trusted. A later set is trusted if the set before it has signed
the handover with more than two thirds of its power, and if the handovers cover all heights without
a gap. The last layer requires the set that signed a block to be the one that this leads to.

Module `consensus::validator_chain` of the specification (sections 4.5 and 10.7):
`transition_message`, `validate_transition_chain`, `trace_height_path`, `verify_transition`,
`verify_validator_chain`, `check` and `verify`. Left out: log events.
-/
namespace LightClient

/-- The validator set that is trusted from the start. -/
structure Genesis where
  hash : Hash
  validators : List Validator
  deriving DecidableEq

/-- A walk over the handovers since genesis that has succeeded. -/
structure GenesisTrace where
  genesisHash : Hash
  currentHeight : Int64
  /-- Zero and the height that each handover led to. -/
  heightPath : List Int64
  handovers : UInt64
  deriving DecidableEq

namespace Handover

/-- What the digest of a handover is taken of. Signatures and approvals are no part of it. -/
def encodeBytes (h : Handover) : Bytes :=
  Bytes.bigEndian 8 h.fromHeight.toUInt64.toNat ++ Bytes.bigEndian 8 h.toHeight.toUInt64.toNat
    ++ Validator.encodeSet h.oldSet ++ Validator.encodeSet h.newSet

/-- The digest that the members of the old set sign. -/
def message (algorithm : HashAlgorithm) (h : Handover) : Hash := algorithm.digest h.encodeBytes

/-- What is wrong with the form of a handover that follows one to the height `previous`. -/
def formError? (previous : Option Int64) (h : Handover) : Option String :=
  if h.oldSet.isEmpty ∨ h.newSet.isEmpty then some "empty validator set"
  else if h.signatures.length ≠ h.oldSet.length then
    some s!"{h.signatures.length} signatures for {h.oldSet.length} outgoing validators"
  else if h.signatures.all List.isEmpty then some "no signatures"
  else if h.toHeight ≤ h.fromHeight then
    some s!"height does not advance: {h.fromHeight} -> {h.toHeight}"
  else
    match previous with
    | some height =>
      if h.toHeight ≤ height then
        some s!"ends at {h.toHeight} after a transition ending at {height}"
      else powerError? h
    | none => powerError? h
where
  /-- What is wrong with the powers of the two sets. -/
  powerError? (h : Handover) : Option String :=
    if (Validator.totalPower? h.oldSet).isNone ∨ (Validator.totalPower? h.newSet).isNone then
      some "negative or overflowing voting power"
    else none

/-- Checks the form of handovers of which the first has the given index. -/
def checkFormsFrom (index : Nat) (previous : Option Int64) : List Handover → Except Failure Unit
  | [] => .ok ()
  | h :: rest =>
    match h.formError? previous with
    | some reason => .error (.malformedTransition index reason)
    | none => checkFormsFrom (index + 1) (some h.toHeight) rest

/-- Checks the form of all handovers before any signature is looked at. -/
def checkForms (handovers : List Handover) : Except Failure Unit :=
  checkFormsFrom 0 none handovers

/-- The heights that handovers lead to on the way from `last` to `target`. -/
def pathFrom (target last : Int64) : List Handover → Except Failure (List Int64)
  | [] => .ok []
  | h :: rest =>
    if h.fromHeight ≠ last then .error (.chainDiscontinuity last h.fromHeight)
    else if target < h.toHeight then .ok []
    else (pathFrom target h.toHeight rest).map (h.toHeight :: ·)

/-- Zero and the heights that handovers lead to on the way to `target`. A handover that does not
start where the one before it ended is a gap, also if it ends beyond the target. -/
def heightPath (handovers : List Handover) (target : Int64) : Except Failure (List Int64) :=
  if target < 0 then .error (.unreachableHeight target 0)
  else (pathFrom target 0 handovers).map (0 :: ·)

/-- The first handover that ends beyond a height, with its index. -/
def firstBeyond? (height : Int64) (index : Nat) : List Handover → Option (Nat × Handover)
  | [] => none
  | h :: rest =>
    if height < h.toHeight then some (index, h) else firstBeyond? height (index + 1) rest

/-- Requires all handovers to end at or below a height. -/
def checkWithin (height : Int64) (handovers : List Handover) : Except Failure Unit :=
  match firstBeyond? height 0 handovers with
  | some (index, h) =>
    .error (.malformedTransition index s!"ends at {h.toHeight}, beyond height {height}")
  | none => .ok ()

/-- Whether a slot of a handover holds its member's signature of the message. -/
def isSignedBy (message : Hash) (v : Validator) (signature : Bytes) : Bool :=
  Ed25519.verify v.publicKey message.bytes signature

/-- The power of the old members whose slot holds a valid signature. -/
def signedPower (message : Hash) (slots : List (Validator × Bytes)) : Int64 :=
  slots.foldl (fun sum (v, signature) =>
    if signature.isEmpty then sum
    else if isSignedBy message v signature then sum + v.power
    else sum) 0

/-- Requires a quorum of the old set to have signed, and returns the power that has. -/
def verify (algorithm : HashAlgorithm) (h : Handover) : Except Failure Int64 :=
  match Validator.totalPower? h.oldSet with
  | none => .error (.violation .invalidVotingPower)
  | some total =>
    let required := Validator.quorumThreshold total
    let signed := signedPower (h.message algorithm) (h.oldSet.zip h.signatures)
    if signed < required then
      .error (.invalidTransition h.fromHeight h.toHeight signed total required)
    else .ok signed

/-- The set that handovers lead to from a trusted set. -/
def walk (algorithm : HashAlgorithm) (trusted : List Validator) :
    List Handover → Except Failure (List Validator)
  | [] => .ok trusted
  | h :: rest => do
    if h.oldSet ≠ trusted then throw (.violation (.validatorSetMismatch h.fromHeight))
    else
      let _ ← h.verify algorithm
      walk algorithm h.newSet rest

end Handover

namespace GenesisTrace

/-- What the last layer finds with a trace. -/
def finding (t : GenesisTrace) : Finding :=
  (Finding.passed Layer.genesisTrust.name)
    |>.withDetail "genesis_hash" (.string t.genesisHash.toHex)
    |>.withDetail "current_height" (Json.encode t.currentHeight)
    |>.withDetail "height_path" (Json.encode t.heightPath)
    |>.withDetail "transitions_applied" (Json.encode t.handovers)

end GenesisTrace

namespace Genesis

/-- Walks from genesis to a height. The result is a trace if the walk ends at the given set, and
nothing if it ends at another one; up to height one no handover can have happened. -/
def trace? (genesis : Genesis) (algorithm : HashAlgorithm) (current : List Validator)
    (height : Int64) (handovers : List Handover) : Except Failure (Option GenesisTrace) :=
  if height ≤ 1 then
    .ok (if current = genesis.validators then some ⟨genesis.hash, height, [0], 0⟩ else none)
  else do
    Handover.checkForms handovers
    Handover.checkWithin height handovers
    let path ← Handover.heightPath handovers height
    let final ← Handover.walk algorithm genesis.validators handovers
    return if final = current then
      some ⟨genesis.hash, height, path, UInt64.ofNat handovers.length⟩ else none

/-- Whether the walk from genesis ends at the given set. -/
def leadsTo (genesis : Genesis) (algorithm : HashAlgorithm) (current : List Validator)
    (height : Int64) (handovers : List Handover) : Except Failure Bool :=
  (genesis.trace? algorithm current height handovers).map Option.isSome

/-- The trace from genesis to the given set; to end at another set is a failure. -/
def check (genesis : Genesis) (algorithm : HashAlgorithm) (current : List Validator)
    (height : Int64) (handovers : List Handover) : Except Failure GenesisTrace := do
  match ← genesis.trace? algorithm current height handovers with
  | some trace => return trace
  | none => throw (.violation (.validatorSetMismatch height))

/-- What the last layer finds about a set at a height. -/
def finding (genesis : Genesis) (algorithm : HashAlgorithm) (current : List Validator)
    (height : Int64) (handovers : List Handover) : Finding :=
  match genesis.check algorithm current height handovers with
  | .ok trace => trace.finding
  | .error f =>
    (Finding.failed Layer.genesisTrust.name f)
      |>.withDetail "genesis_hash" (.string genesis.hash.toHex)
      |>.withDetail "current_height" (Json.encode height)

end Genesis

end LightClient
