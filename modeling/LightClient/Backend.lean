import LightClient.Block
import LightClient.Failure
import LightClient.Receipt
import LightClient.Validator

/-!
# Backends

A backend answers queries and may answer anything: nothing it says is trusted before it is checked.
Its answers may depend on all that was asked before. Every question and its answer go into a
journal.

Module `backend` of the specification (section 6): the queries of `Backend` with their answers,
`BackendError` and `AnchorSearch`. Left out: time-outs, and queries that run at the same time.
-/
namespace LightClient

/-- A root of one partition as it is recorded in another. -/
structure Anchor where
  sourcePartition : String
  targetPartition : String
  /-- The root of the source. -/
  anchored : Hash
  /-- Leads from that root to a root of the target. -/
  receipt : Receipt
  deriving DecidableEq

/-- A change of the validator set, signed by the members that leave office. -/
structure Handover where
  fromHeight : Int64
  toHeight : Int64
  oldSet : List Validator
  newSet : List Validator
  /-- One signature for each old member, empty where a member did not sign. -/
  signatures : List Bytes
  /-- The number of approvals as reported; nothing depends on it. -/
  approvals : Int64
  deriving DecidableEq

/-- An entry of a chain and, if there is one, its receipt. -/
structure ChainEntry where
  entryHash : Hash
  receipt : Option Receipt
  deriving DecidableEq

/-- Where an anchor is looked for. -/
inductive AnchorSearch where
  | intermediate
  | authorityChain
  deriving DecidableEq, Repr

namespace AnchorSearch

/-- The name used in details. -/
def name : AnchorSearch → String
  | intermediate => "intermediate"
  | authorityChain => "authority_chain"

/-- The name used in messages. -/
def title : AnchorSearch → String
  | intermediate => "Intermediate"
  | authorityChain => "AuthorityChain"

end AnchorSearch

/-- A question to a backend. -/
inductive Query where
  /-- The index of the last entry of a chain. -/
  | chainHead (scope : Url) (chain : String)
  | chainEntry (scope : Url) (chain : String) (index : UInt64)
  | block (scope : Url) (height : UInt64)
  /-- The anchor of a root of `source` in `target`. -/
  | anchor (source target : Url) (root : Hash) (search : AnchorSearch)
  | commit (partition : Url) (height : UInt64)
  | validatorSet (partition : Url) (height : UInt64)
  /-- The changes of the validator set between two heights. -/
  | handovers (fromHeight toHeight : Int64)
  deriving DecidableEq

/-- What a query is answered with when the backend has it. -/
@[reducible] def Query.Answer : Query → Type
  | chainHead .. => UInt64
  | chainEntry .. => ChainEntry
  | block .. => Block
  | anchor .. => Anchor
  | commit .. => Commit
  | validatorSet .. => List Validator
  | handovers .. => List Handover

/-- A query and the answer it got. -/
structure Exchange where
  query : Query
  answer : Except QueryError query.Answer

/-- All exchanges so far, the first one first. -/
abbrev Journal := List Exchange

/-- A backend's answer to a query after the exchanges in a journal. -/
abbrev Backend := Journal → (query : Query) → Except QueryError query.Answer

/-- A step that may ask a backend and may fail. -/
abbrev Inquiry := ExceptT Failure (StateM Journal)

namespace Backend

/-- The backend that gives a query the same answer whenever it is asked. -/
def fixed (answers : (query : Query) → Except QueryError query.Answer) : Backend :=
  fun _ query => answers query

/-- Asks and writes the exchange down. -/
def exchange (backend : Backend) (query : Query) :
    StateM Journal (Except QueryError query.Answer) :=
  fun journal =>
    let answer := backend journal query
    (answer, journal ++ [⟨query, answer⟩])

/-- Asks; when there is no answer, fails in a context that tells what was asked for. -/
def ask (backend : Backend) (context : String) (query : Query) : Inquiry query.Answer :=
  ExceptT.mk do return Failure.ofAnswer context (← backend.exchange query)

end Backend

end LightClient
