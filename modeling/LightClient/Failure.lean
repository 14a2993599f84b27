import LightClient.Hash
import LightClient.Url

/-!
# Failures

Why a verification or one of its steps did not succeed. Every cause has a kind, and the kind alone
decides whether trying again makes sense and whether the whole verification ends. A failure may be
wrapped in contexts that tell what was being done.

Module `error` of the specification (sections 7 and 10.3): `VerificationError` and
`InvariantViolation` with their texts, `kind`, `is_retryable`, `aborts_verification`, `root_cause`,
`report` and the contexts.
-/
namespace LightClient

/-- What a backend answers when it has no record to give. -/
inductive QueryError where
  | notFound (what : String)
  | unavailable (reason : String)
  deriving DecidableEq, Repr

/-- A check of cryptography or consistency that does not hold. -/
inductive Violation where
  | receiptRootMismatch (computed expected : Hash)
  | leafMismatch (leaf receiptStart : Hash)
  | anchorMismatch (anchor receiptAnchor : Hash)
  | localBlockMismatch (localBlock receiptBlock : UInt64)
  | emptySourcePartition
  | unacceptedPartition (partition : String)
  | stateCommitmentMismatch (partition : String) (height : UInt64) (expected appHash : Hash)
  | blockHeightMismatch (requested returned : UInt64)
  | anchorRecordMismatch (reason : String)
  | commitMismatch (blockHash : Hash) (blockHeight : UInt64) (commitHash : Hash)
      (commitHeight : UInt64)
  | headerCommitmentMismatch (height : UInt64) (blockHash appHash : Hash)
  | quorumNotMet (signed total required : Int64)
  | validatorSetMismatch (height : Int64)
  | invalidVotingPower
  deriving DecidableEq

/-- Why something could not be verified. -/
inductive Failure where
  | malformed (reason : String)
  | emptyLeaf (scope chain : String) (index : UInt64)
  | missingReceipt (scope chain : String) (index : UInt64)
  /-- The partition that produced a block is not known; `found` is what the block declares. -/
  | partitionResolution (height : UInt64) (found : Option String)
  | backend (cause : QueryError)
  | violation (cause : Violation)
  | invalidTransition (fromHeight toHeight signed total required : Int64)
  | malformedTransition (index : Nat) (reason : String)
  | chainDiscontinuity (expected found : Int64)
  | unreachableHeight (target reached : Int64)
  | context (text : String) (cause : Failure)
  deriving DecidableEq

/-- The classes of failures. -/
inductive Failure.Kind where
  /-- The caller or the data passed in is unusable. -/
  | malformedInput
  /-- The backend cannot be reached for now. -/
  | backendUnavailable
  /-- The backend lacks something that may exist later. -/
  | missingData
  /-- A check failed, which may be fraud. -/
  | invariantViolation
  /-- The changes of the validator set leave out heights. -/
  | chainDiscontinuity
  deriving DecidableEq, Repr

namespace Failure.Kind

def name : Kind → String
  | malformedInput => "malformed_input"
  | backendUnavailable => "backend_unavailable"
  | missingData => "missing_data"
  | invariantViolation => "invariant_violation"
  | chainDiscontinuity => "chain_discontinuity"

def all : List Kind :=
  [malformedInput, backendUnavailable, missingData, invariantViolation, chainDiscontinuity]

end Failure.Kind

namespace QueryError

def message : QueryError → String
  | notFound what => "Backend has no record of " ++ what
  | unavailable reason => "Backend unavailable: " ++ reason

def kind : QueryError → Failure.Kind
  | notFound _ => .missingData
  | unavailable _ => .backendUnavailable

end QueryError

namespace Violation

def message : Violation → String
  | receiptRootMismatch computed expected =>
    s!"Receipt replay reached {computed} but the receipt claims anchor {expected}"
  | leafMismatch leaf receiptStart =>
    s!"Proof leaf {leaf} does not match receipt start {receiptStart}"
  | anchorMismatch anchor receiptAnchor =>
    s!"Proof anchor {anchor} does not match receipt anchor {receiptAnchor}"
  | localBlockMismatch localBlock receiptBlock =>
    s!"Proof local block {localBlock} does not match receipt local block {receiptBlock}"
  | emptySourcePartition => "Proof has no source partition"
  | unacceptedPartition partition =>
    "Partition " ++ Text.quoted partition ++ " is not an accepted partition URL"
  | stateCommitmentMismatch partition height expected appHash =>
    s!"Block {height} of {partition} commits app hash {appHash}, expected {expected}"
  | blockHeightMismatch requested returned =>
    s!"Backend returned block {returned} when asked for block {requested}"
  | anchorRecordMismatch reason => s!"Partition anchor rejected: {reason}"
  | commitMismatch blockHash blockHeight commitHash commitHeight =>
    s!"Commit is for block {commitHash} at height {commitHeight}, "
      ++ s!"expected {blockHash} at {blockHeight}"
  | headerCommitmentMismatch height blockHash appHash =>
    s!"Header {blockHash} at height {height} does not commit app hash {appHash}"
  | quorumNotMet signed total required =>
    s!"Insufficient signing power: {signed}/{total} (need {required})"
  | validatorSetMismatch height =>
    s!"Validator set at height {height} does not match the set derived from genesis"
  | invalidVotingPower => "Invalid voting power in validator set: negative power or overflow"

end Violation

namespace Failure

/-- What is wrong with the source partition that a block declares. -/
def describePartition : Option String → String
  | none => "block declares no source partition"
  | some found =>
    if found = "" then "block declares an empty source partition"
    else Text.quoted found ++ " is not an accepted partition URL"

/-- The message of the failure itself, or of its outermost context. -/
def message : Failure → String
  | malformed reason => s!"Malformed input: {reason}"
  | emptyLeaf scope chain index =>
    s!"Entry {index} of chain " ++ Text.quoted chain ++ s!" under {scope} has an empty hash"
  | missingReceipt scope chain index =>
    s!"Backend returned no receipt for entry {index} of chain " ++ Text.quoted chain
      ++ s!" under {scope}"
  | partitionResolution height found =>
    s!"Cannot resolve source partition of block {height}: " ++ describePartition found
  | backend cause => cause.message
  | violation cause => cause.message
  | invalidTransition fromHeight toHeight signed total required =>
    s!"Insufficient signing power for transition {fromHeight}->{toHeight}: "
      ++ s!"{signed}/{total} (need {required})"
  | malformedTransition index reason => s!"Transition {index} is malformed: {reason}"
  | chainDiscontinuity expected found =>
    s!"Chain discontinuity: expected a transition from height {expected}, got one from {found}"
  | unreachableHeight target reached =>
    s!"Height {target} is unreachable from genesis: path stops at {reached}"
  | context text _ => text

/-- The kind of the cause. A declared partition that is not accepted is a violation; a missing or
empty declaration is missing data. -/
def kind : Failure → Kind
  | malformed _ | emptyLeaf .. => .malformedInput
  | missingReceipt .. => .missingData
  | partitionResolution _ none => .missingData
  | partitionResolution _ (some found) => if found = "" then .missingData else .invariantViolation
  | backend cause => cause.kind
  | violation _ | invalidTransition .. | malformedTransition .. => .invariantViolation
  | chainDiscontinuity .. | unreachableHeight .. => .chainDiscontinuity
  | context _ cause => cause.kind

/-- Whether the same request may succeed later. -/
def isRetryable (f : Failure) : Bool :=
  f.kind = .backendUnavailable || f.kind = .missingData

/-- Whether the failure ends the whole verification and not only the step it occurs in. -/
def aborts (f : Failure) : Bool :=
  f.kind = .malformedInput || f.kind = .chainDiscontinuity

/-- The failure within all contexts. -/
def rootCause : Failure → Failure
  | context _ cause => cause.rootCause
  | f => f

/-- The messages of all contexts from the outside in and then of the cause. -/
def report : Failure → String
  | context text cause => text ++ ": " ++ cause.report
  | f => f.message

/-- A result whose failure is put into a context. -/
def inContext {α : Type} (text : String) : Except Failure α → Except Failure α :=
  Except.mapError (context text)

/-- The answer to a query as a result of verification, in a context. -/
def ofAnswer {α : Type} (text : String) : Except QueryError α → Except Failure α :=
  Except.mapError fun cause => context text (backend cause)

/-- A text that is no URL is malformed input. -/
def ofUrlError (e : Url.Error) : Failure := malformed e.message

/-- A text that is no hash is malformed input. -/
def ofHashError (e : Hash.Error) : Failure := malformed e.message

end Failure

end LightClient
