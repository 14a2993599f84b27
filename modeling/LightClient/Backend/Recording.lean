import LightClient.Backend

/-!
# Recorded backends

A recording answers queries from lists of records. Of several records for one query the last one
counts, and a failure set for a kind of query stands in for all its answers.
-/
namespace LightClient

namespace Query

/-- The word by which failures name the kind of a query. -/
def kindName : Query → String
  | chainHead .. => "head"
  | chainEntry .. => "entry"
  | block .. => "block"
  | anchor _ _ _ search => "anchor_" ++ search.name
  | commit .. => "commit"
  | validatorSet .. => "validators"
  | handovers .. => "transitions"

/-- The query as one line of a log. -/
def describe : Query → String
  | chainHead scope chain => s!"head {scope} {chain}"
  | chainEntry scope chain index => s!"entry {scope} {chain} {index}"
  | block scope height => s!"block {scope} {height}"
  | anchor source target root search => s!"anchor {source} {target} {root} {search.name}"
  | commit partition height => s!"commit {partition} {height}"
  | validatorSet partition height => s!"validators {partition} {height}"
  | handovers fromHeight toHeight => s!"transitions {fromHeight} {toHeight}"

/-- What is missing when a recording has nothing for a query. -/
def missing : Query → String
  | chainHead scope chain => s!"chain {chain} of {scope}"
  | chainEntry scope chain index => s!"entry {index} of {scope}#{chain}"
  | block scope height => s!"block {height} of {scope}"
  | anchor _ _ root _ => s!"anchor of {root}"
  | commit partition height => s!"commit {height} of {partition}"
  | validatorSet partition height => s!"validator set {height} of {partition}"
  | handovers fromHeight toHeight => s!"transitions {fromHeight} {toHeight}"

end Query

namespace Recording

/-- A recorded chain head. -/
structure Head where
  scope : String
  chain : String
  index : UInt64

/-- A recorded chain entry. -/
structure Entry where
  scope : String
  chain : String
  index : UInt64
  entryHash : Hash
  receipt : Option Receipt

/-- A recorded block. -/
structure BlockAt where
  scope : String
  height : UInt64
  block : Block

/-- A recorded anchor. The search is told by its name, and another text matches no search. -/
structure AnchorOf where
  search : String
  root : Hash
  anchor : Anchor

/-- A recorded commit. -/
structure CommitAt where
  partition : String
  height : UInt64
  commit : Commit

/-- A recorded validator set. -/
structure ValidatorsAt where
  partition : String
  height : UInt64
  validators : List Validator

/-- A failure for all queries of a kind. -/
structure Outage where
  query : String
  kind : String
  text : String

end Recording

/-- Records for all kinds of queries. -/
structure Recording where
  heads : List Recording.Head
  entries : List Recording.Entry
  blocks : List Recording.BlockAt
  anchors : List Recording.AnchorOf
  commits : List Recording.CommitAt
  validatorSets : List Recording.ValidatorsAt
  handovers : List Handover
  outages : List Recording.Outage

namespace Recording

def empty : Recording := ⟨[], [], [], [], [], [], [], []⟩

/-- The last element that satisfies `p`. -/
def last? {α : Type} (p : α → Bool) (l : List α) : Option α := l.reverse.find? p

/-- The failure that is set for a query. -/
def outage? (r : Recording) (query : Query) : Option QueryError :=
  (last? (fun o => o.query = query.kindName) r.outages).map fun o =>
    if o.kind = "unavailable" then .unavailable o.text else .notFound o.text

/-- The record for a query. All handovers are returned whatever the heights. -/
def find? (r : Recording) : (query : Query) → Option query.Answer
  | .chainHead scope chain =>
    (last? (fun h => h.scope = scope.text && h.chain = chain) r.heads).map (·.index)
  | .chainEntry scope chain index =>
    (last? (fun e => e.scope = scope.text && e.chain = chain && e.index = index) r.entries).map
      fun e => ⟨e.entryHash, e.receipt⟩
  | .block scope height =>
    (last? (fun b => b.scope = scope.text && b.height = height) r.blocks).map (·.block)
  | .anchor _ _ root search =>
    (last? (fun a => a.search = search.name && a.root = root) r.anchors).map (·.anchor)
  | .commit partition height =>
    (last? (fun c => c.partition = partition.text && c.height = height) r.commits).map (·.commit)
  | .validatorSet partition height =>
    (last? (fun v => v.partition = partition.text && v.height = height) r.validatorSets).map
      (·.validators)
  | .handovers _ _ => some r.handovers

/-- The answer to a query: the failure set for its kind, else its record. -/
def answer (r : Recording) (query : Query) : Except QueryError query.Answer :=
  match r.outage? query with
  | some e => .error e
  | none =>
    match r.find? query with
    | some record => .ok record
    | none => .error (.notFound query.missing)

/-- The backend that answers from a recording. -/
def backend (r : Recording) : Backend := Backend.fixed r.answer

end Recording

end LightClient
