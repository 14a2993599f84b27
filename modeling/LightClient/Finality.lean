import LightClient.Backend
import LightClient.Ed25519
import LightClient.Finding
import LightClient.HeaderTree
import LightClient.Vote

/-!
# Finality of blocks

The layer of block signatures: a block is final once validators with more than two thirds of the
voting power have signed its canonical vote. Every validator counts once, and nothing counts unless
the signed header commits the block's application hash.

Modules `consensus::signatures` and `types::consensus` of the specification (sections 4.4 and 10.7):
`tally`, `check`, `verify`, `verify_from_backend`, `quorum_threshold`, `total_voting_power` and
`has_quorum`. Left out: log events.
-/
namespace LightClient

/-- What the check of a block's commit against a validator set came to. -/
structure Finality where
  blockHeight : Int64
  blockHash : Hash
  chainId : String
  round : Int32
  validators : List Validator
  precommits : List Precommit
  totalPower : Int64
  /-- The power of the validators whose signature on this block and round is valid. -/
  signedPower : Int64
  deriving DecidableEq

namespace Finality

def requiredPower (f : Finality) : Int64 := Validator.quorumThreshold f.totalPower

def hasQuorum (f : Finality) : Bool := f.requiredPower ≤ f.signedPower

end Finality

/-- How the precommits of a commit were counted. -/
structure Tally where
  totalPower : Int64
  signedPower : Int64
  requiredPower : Int64
  /-- Validators with a valid signature. -/
  signers : Nat
  /-- Signatures under an address that no validator has. -/
  skippedUnknown : Nat
  /-- Signatures of validators that were counted before. -/
  skippedDuplicate : Nat
  /-- Signatures that are not valid. -/
  invalid : Nat
  deriving DecidableEq, Repr

namespace Tally

def hasQuorum (t : Tally) : Bool := t.requiredPower ≤ t.signedPower

/-- The tally before any signature, for a set with the given power. -/
def start (totalPower : Int64) : Tally :=
  ⟨totalPower, 0, Validator.quorumThreshold totalPower, 0, 0, 0, 0⟩

/-- Counts one precommit; the first component holds the addresses that have been counted. -/
def step (validators : List Validator) (isValid : Validator → Precommit → Bool)
    (state : List Bytes × Tally) (p : Precommit) : List Bytes × Tally :=
  let (counted, t) := state
  match Validator.find? validators p.address with
  | none => (counted, { t with skippedUnknown := t.skippedUnknown + 1 })
  | some v =>
    if p.address ∈ counted then
      (counted, { t with skippedDuplicate := t.skippedDuplicate + 1 })
    else if isValid v p then
      (p.address :: counted,
        { t with signers := t.signers + 1, signedPower := t.signedPower + v.power })
    else (counted, { t with invalid := t.invalid + 1 })

/-- Counts all precommits in order. -/
def count (validators : List Validator) (isValid : Validator → Precommit → Bool)
    (totalPower : Int64) (precommits : List Precommit) : Tally :=
  (precommits.foldl (step validators isValid) ([], start totalPower)).2

end Tally

namespace Commit

/-- The vote that a precommit of a commit's round signs for a block. -/
def vote (block : Block) (height : Int64) (round : Int32) (p : Precommit) : Vote :=
  { height, round, blockHash := block.blockHash, partSet := block.partSet
    timestamp := p.timestamp, chainId := block.chainId }

/-- Whether a precommit carries a validator's signature of the block. -/
def isSignedBy (block : Block) (height : Int64) (round : Int32) (v : Validator) (p : Precommit) :
    Bool :=
  Ed25519.verify v.publicKey (vote block height round p).signBytes p.signature

/-- Requires the commit to be for the block. -/
def checkMatches (block : Block) (commit : Commit) : Except Failure Unit :=
  if commit.height = block.height ∧ commit.blockHash = block.blockHash then .ok ()
  else .error (.violation
    (.commitMismatch block.blockHash block.height commit.blockHash commit.height))

/-- The height of a block as a signed number, which is how votes hold it. -/
def signedHeight (block : Block) : Except Failure Int64 :=
  if block.height.toNat ≤ Int64.maxValue.toInt then .ok (Int64.ofInt block.height.toNat)
  else .error (.malformed s!"block height {block.height} overflows")

/-- The power of a validator set that is valid. -/
def validPower (validators : List Validator) : Except Failure Int64 :=
  match Validator.totalPower? validators with
  | some total => .ok total
  | none => .error (.violation .invalidVotingPower)

/-- Counts the valid precommits without asking for a quorum. -/
def tally (block : Block) (commit : Commit) (validators : List Validator) :
    Except Failure (Finality × Tally) := do
  checkMatches block commit
  HeaderTree.checkAppHash block
  let height ← signedHeight block
  let total ← validPower validators
  let t := Tally.count validators (isSignedBy block height commit.round) total commit.precommits
  return (
    { blockHeight := height, blockHash := block.blockHash, chainId := block.chainId
      round := commit.round, validators, precommits := commit.precommits
      totalPower := t.totalPower, signedPower := t.signedPower }, t)

/-- The failure of a tally without a quorum. -/
def belowQuorum (t : Tally) : Failure :=
  .violation (.quorumNotMet t.signedPower t.totalPower t.requiredPower)

/-- Counts the valid precommits and requires a quorum. -/
def check (block : Block) (commit : Commit) (validators : List Validator) :
    Except Failure (Finality × Tally) := do
  let (finality, t) ← tally block commit validators
  if t.hasQuorum then return (finality, t) else throw (belowQuorum t)

/-- Whether a failure means that data is missing and not that data is wrong. -/
def isDataGap (f : Failure) : Bool := f.kind = .missingData || f.kind = .backendUnavailable

/-- The finding of the layer for a failure. -/
def failedFinding (f : Failure) : Finding :=
  (Finding.failed Layer.blockSignatures.name f).withDetail "data_unavailable" (.bool (isDataGap f))

/-- Adds the block and the round to a finding. -/
def describeBlock (block : Block) (commit : Commit) (f : Finding) : Finding :=
  f |>.withDetail "height" (Json.encode block.height)
    |>.withDetail "block_hash" (.string block.blockHash.toHex)
    |>.withDetail "round" (Json.encode commit.round)

/-- Adds the counts to a finding. -/
def describeTally (t : Tally) (f : Finding) : Finding :=
  f |>.withDetail "total_power" (Json.encode t.totalPower)
    |>.withDetail "signed_power" (Json.encode t.signedPower)
    |>.withDetail "required_power" (Json.encode t.requiredPower)
    |>.withDetail "signers" (.integer t.signers)
    |>.withDetail "skipped_unknown" (.integer t.skippedUnknown)
    |>.withDetail "skipped_duplicate" (.integer t.skippedDuplicate)
    |>.withDetail "invalid_signatures" (.integer t.invalid)

/-- What the layer finds about a block and its commit. -/
def verify (block : Block) (commit : Commit) (validators : List Validator) :
    Finding × Option Finality :=
  match tally block commit validators with
  | .ok (finality, t) =>
    let finish (f : Finding) : Finding :=
      (describeTally t (describeBlock block commit f)).withDetail "data_unavailable" (.bool false)
    if t.hasQuorum then
      (finish (.passed Layer.blockSignatures.name), some finality)
    else (finish (.failed Layer.blockSignatures.name (belowQuorum t)), none)
  | .error f => (describeBlock block commit (failedFinding f), none)

/-- Requires a record to hold something; an empty one counts as not found. -/
def requireSome {α : Type} (what : String) (records : List α) : Except Failure Unit :=
  if records.isEmpty then .error (.backend (.notFound what)) else .ok ()

/-- Fetches the validator set and the commit of a block. -/
def fetch (backend : Backend) (partition : Url) (height : UInt64) :
    Inquiry (List Validator × Commit) := do
  let validators ← backend.ask s!"querying validator set of {partition} at {height}"
    (.validatorSet partition height)
  requireSome s!"validators of {partition} at {height}" validators
  let commit ← backend.ask s!"querying commit of {partition} block {height}"
    (.commit partition height)
  requireSome s!"precommit signatures of {partition} block {height}" commit.precommits
  return (validators, commit)

/-- What the layer finds about a block with what was fetched for it. -/
def fetchedFinding (partition : Url) (block : Block) :
    Except Failure (List Validator × Commit) → Finding × Option Finality
  | .ok (validators, commit) =>
    let (finding, finality) := verify block commit validators
    (finding.withDetail "partition" (.string partition.text), finality)
  | .error f =>
    ((failedFinding f)
      |>.withDetail "partition" (.string partition.text)
      |>.withDetail "height" (Json.encode block.height), none)

/-- The layer of block signatures, with what the backend has for the block. -/
def verifyFetched (backend : Backend) (partition : Url) (block : Block) :
    StateM Journal (Finding × Option Finality) := do
  return fetchedFinding partition block (← (fetch backend partition block.height).run)

end Commit

end LightClient
