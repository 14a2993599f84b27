import LightClient.Anchoring
import LightClient.Cache

/-!
# Verification of accounts

A verifier runs the five layers for an account, keeps what it has proven in a cache, and reports how
much trust was reached. A layer that fails ends the run with the layers after it skipped, so that
partial trust can still be told. Only malformed input and a gap in the handovers end a verification
without a report.

Module `verifier` of the specification (sections 4.6 and 10.7): `with_cache`, `verify_account`,
`verify_account_simple`, `run_layers` with the functions of the layers that it calls, and the keys
of the cached data. Left out: log events, the measured durations, and calls that run at the same
time.
-/
namespace LightClient

namespace Verifier

/-- Accepts settings and a genesis, and returns the authority partition. -/
def accept (config : Config) (genesis : Genesis) : Except Failure Url := do
  let authority ← config.accept
  if genesis.validators.isEmpty then throw (.malformed "genesis validator set is empty")
  else
    match Validator.totalPower? genesis.validators with
    | some power =>
      if 0 < power then return authority
      else throw (.malformed "genesis validator set has no valid voting power")
    | none => throw (.malformed "genesis validator set has no valid voting power")

end Verifier

/-- Settings and a genesis that have been accepted. -/
structure Verifier where
  config : Config
  genesis : Genesis
  authority : Url
  accepted : Verifier.accept config genesis = .ok authority

namespace Verifier

def make (config : Config) (genesis : Genesis) : Except Failure Verifier :=
  match h : accept config genesis with
  | .ok authority => .ok ⟨config, genesis, authority, h⟩
  | .error f => .error f

/-- What a verification changes: the cache, and the journal of what was asked. -/
structure State where
  cache : Cache
  journal : Journal

/-- Asks a backend within a verification. -/
def asking {α : Type} (inquiry : StateM Journal α) : StateM State α := fun s =>
  let (a, journal) := inquiry s.journal
  (a, { s with journal })

/-- Looks a key up in the cache. -/
def lookup (now : UInt64) (t : Cache.Table) (key : String) : StateM State (Option t.Value) :=
  fun s =>
    let (value, cache) := s.cache.get t key now
    (value, { s with cache })

/-- Stores a value in the cache for the default time. -/
def remember (now : UInt64) (t : Cache.Table) (key : String) (value : t.Value) :
    StateM State Unit :=
  modify fun s => { s with cache := s.cache.store t key value now none }

/-- The key of a position in a chain. -/
def positionKey (scope : Url) (chain : String) (index : UInt64) : String :=
  s!"{scope}#{chain}/{index}"

/-- The key of a block of a partition. -/
def blockKey (partition : Url) (height : UInt64) : String := s!"{partition}@{height}"

/-- The key of a walk from genesis to a validator set at a height. -/
def traceKey (v : Verifier) (height : Int64) (validators : List Validator) : String :=
  let digest := v.config.algorithm.digest (Validator.encodeSet validators)
  s!"{v.genesis.hash}:{height}:{digest}"

/-- How the verifier anchors roots. -/
def anchoring (v : Verifier) : Anchoring := ⟨v.config.algorithm, v.authority⟩

/-- What a run of the layers has come to. -/
structure Outcome where
  /-- The findings of the layers that ran. -/
  recorded : List Finding
  /-- The findings of the layers that did not run. -/
  skipped : List Finding
  inclusion : Option Inclusion
  finality : Option Finality
  included : Bool
  anchored : Bool
  signed : Bool
  traced : Bool

namespace Outcome

def start : Outcome := ⟨[], [], none, none, false, false, false, false⟩

/-- Adds the finding of a layer that ran. -/
def record (o : Outcome) (f : Finding) : Outcome := { o with recorded := o.recorded ++ [f] }

/-- Ends the run after a layer: all layers after it are skipped for the reason given. -/
def stopAfter (o : Outcome) (layer : Layer) (reason : String) : Outcome :=
  { o with skipped := layer.after.map fun skipped => Finding.skipped skipped.name reason }

end Outcome

/-- The last entry of the account's chain with its inclusion, from the cache or from the backend,
and whether the backend's answers made it. The index of the entry is always asked for. -/
def locateInclusion (v : Verifier) (backend : Backend) (now : UInt64) (account : Url) :
    StateM State (Except Failure (Inclusion × Bool)) := do
  let chain := v.config.chain
  let context := "querying head of chain " ++ Text.quoted chain ++ s!" under {account}"
  match ← asking (backend.ask context (.chainHead account chain)).run with
  | .error f => return .error f
  | .ok index =>
    match ← lookup now .inclusions (positionKey account chain index) with
    | some inclusion => return .ok (inclusion, false)
    | none =>
      let built ← asking (Inclusion.build backend account chain index).run
      return built.map (·, true)

/-- The inclusion of the last entry of the account's chain. -/
def findInclusion (v : Verifier) (backend : Backend) (now : UInt64) (account : Url) :
    StateM State (Except Failure Inclusion) := do
  let located ← v.locateInclusion backend now account
  return located.map Prod.fst

/-- Keeps an inclusion and its receipt. -/
def rememberInclusion (now : UInt64) (p : Inclusion) : StateM State Unit := do
  let key := positionKey p.scope p.chain p.index
  remember now .receipts key p.receipt
  remember now .inclusions key p

/-- The finding of the signature layer for a block whose finality was in the cache. -/
def rememberedFinality (partition : Url) (block : Block) (finality : Finality) : Finding :=
  (Finding.passed Layer.blockSignatures.name)
    |>.withDetail "partition" (.string partition.text)
    |>.withDetail "height" (Json.encode block.height)
    |>.withDetail "block_hash" (.string block.blockHash.toHex)
    |>.withDetail "total_power" (Json.encode finality.totalPower)
    |>.withDetail "signed_power" (Json.encode finality.signedPower)
    |>.withDetail "required_power" (Json.encode finality.requiredPower)
    |>.withDetail "from_cache" (.bool true)

/-- The signature layer with the backend's data; a success is kept. -/
def fetchSignatures (backend : Backend) (now : UInt64) (partition : Url) (block : Block) :
    StateM State (Finding × Option Finality) := do
  let (finding, finality?) ← asking (Commit.verifyFetched backend partition block)
  match finality? with
  | some finality =>
    remember now .finalities (blockKey partition block.height) finality
    return (finding, some finality)
  | none => return (finding, none)

/-- The signature layer. The block's header is checked even if signatures of a block at this height
are in the cache, and those count only for the same block hash. -/
def verifySignatures (backend : Backend) (now : UInt64) (partition : Url) (block : Block) :
    StateM State (Finding × Option Finality) := do
  match HeaderTree.checkAppHash block with
  | .error f =>
    return ((Finding.failed Layer.blockSignatures.name f)
      |>.withDetail "partition" (.string partition.text)
      |>.withDetail "height" (Json.encode block.height)
      |>.withDetail "data_unavailable" (.bool false), none)
  | .ok () =>
    match ← lookup now .finalities (blockKey partition block.height) with
    | some finality =>
      if finality.blockHash = block.blockHash ∧ finality.hasQuorum then
        return (rememberedFinality partition block finality, some finality)
      else fetchSignatures backend now partition block
    | none => fetchSignatures backend now partition block

/-- Walks from genesis to a validator set with the backend's handovers. -/
def traceGenesis (v : Verifier) (backend : Backend) (validators : List Validator)
    (height : Int64) : Inquiry GenesisTrace := do
  let handovers ← backend.ask s!"querying validator transitions up to {height}"
    (.handovers 0 height)
  v.genesis.check v.config.algorithm validators height handovers

/-- The genesis layer. A failure that ends the verification is passed on. -/
def verifyGenesis (v : Verifier) (backend : Backend) (now : UInt64) (finality : Finality) :
    StateM State (Except Failure Finding) := do
  let height := finality.blockHeight
  let key := v.traceKey height finality.validators
  match ← lookup now .traces key with
  | some trace => return .ok (trace.finding.withDetail "from_cache" (.bool true))
  | none =>
    match ← asking (v.traceGenesis backend finality.validators height).run with
    | .ok trace =>
      remember now .traces key trace
      return .ok trace.finding
    | .error f =>
      if f.aborts then
        return .error (.context s!"tracing validators of height {height} to genesis" f)
      else
        return .ok ((Finding.failed Layer.genesisTrust.name f)
          |>.withDetail "genesis_hash" (.string v.genesis.hash.toHex)
          |>.withDetail "current_height" (Json.encode height)
          |>.withDetail "data_unavailable" (.bool (Commit.isDataGap f)))

/-- The signature and genesis layers for the block that has to be signed. -/
def runSigned (v : Verifier) (backend : Backend) (now : UInt64) (o : Outcome) (partition : Url)
    (block : Block) : StateM State (Except Failure Outcome) := do
  let (finding, finality?) ← verifySignatures backend now partition block
  let o := { o with anchored := true }.record finding
  match finality? with
  | none => return .ok (o.stopAfter .blockSignatures "block signatures were not verified")
  | some finality =>
    match ← v.verifyGenesis backend now finality with
    | .error f => return .error f
    | .ok finding =>
      let o := { o with signed := true, traced := finding.valid, finality := some finality }
      return .ok (o.record finding)

/-- The finding of the anchor layer for a home partition that is the authority itself. -/
def anchorNotRequired (home : Url) : Finding :=
  (Finding.passed Layer.partitionAnchor.name)
    |>.withDetail "required" (.bool false)
    |>.withDetail "source_partition" (.string home.text)

/-- The anchor layer and those after it, for the block of the home partition that commits the
inclusion's anchor. -/
def runAnchored (v : Verifier) (backend : Backend) (now : UInt64) (o : Outcome) (home : Url)
    (root : Hash) (homeBlock : Block) : StateM State (Except Failure Outcome) := do
  if v.anchoring.requiresAnchor home then
    let (finding, anchored?) ← asking (v.anchoring.verifyAnchor backend home root)
    match anchored? with
    | some anchored =>
      v.runSigned backend now (o.record finding) v.authority anchored.authorityBlock
    | none =>
      return .ok ((o.record finding).stopAfter .partitionAnchor
        "partition anchor was not established")
  else v.runSigned backend now (o.record (anchorNotRequired home)) home homeBlock

/-- The layers after the first, for an inclusion that holds. -/
def runCommitted (v : Verifier) (backend : Backend) (now : UInt64) (o : Outcome) (p : Inclusion) :
    StateM State (Except Failure Outcome) := do
  match Url.parse p.sourcePartition with
  | .error _ =>
    let f := Failure.partitionResolution p.localBlock (some p.sourcePartition)
    return .ok ((o.record (.failed Layer.stateCommitment.name f)).stopAfter .stateCommitment
      "home partition is not a valid URL")
  | .ok home =>
    let (finding, block?) ← asking (Anchoring.verifyState backend home p.anchor p.localBlock)
    match block? with
    | none =>
      return .ok ((o.record finding).stopAfter .stateCommitment
        "state commitment was not established")
    | some block => v.runAnchored backend now (o.record finding) home p.anchor block

/-- All layers for an account. -/
def runLayers (v : Verifier) (backend : Backend) (now : UInt64) (account : Url) :
    StateM State (Except Failure Outcome) := do
  match ← v.findInclusion backend now account with
  | .error f =>
    if f.aborts then return .error f
    else
      let finding := (Finding.failed Layer.entryInclusion.name f).withDetail "scope"
        (.string account.text)
      return .ok ((Outcome.start.record finding).stopAfter .entryInclusion
        "entry inclusion was not established")
  | .ok inclusion =>
    let finding := inclusion.finding v.config.algorithm
    let o := { Outcome.start with
      inclusion := some inclusion, included := finding.valid }.record finding
    if finding.valid then
      rememberInclusion now inclusion
      v.runCommitted backend now o inclusion
    else
      return .ok (o.stopAfter .entryInclusion "entry inclusion failed verification")

/-- The report on a run. Only the layers that ran have a duration; durations are not measured. -/
def report (now : UInt64) (account : Url) (o : Outcome) : Report where
  account := account
  trustLevel := .assess o.included o.anchored o.signed o.traced
  findings := o.recorded ++ o.skipped
  inclusion := o.inclusion
  finality := o.finality
  timing := ⟨now, 0, .ofList (o.recorded.map fun f => (f.layer, 0))⟩

/-- What comes of an account: a text that is no URL is refused, a report that is kept is taken, and
only without one does `fresh` run. -/
def unlessReported {α : Type} (now : UInt64) (account : String) (refused : Url.Error → α)
    (kept : Report → α) (fresh : Url → StateM State α) : StateM State α := do
  match Url.parse account with
  | .error e => return refused e
  | .ok account =>
    match ← lookup now .reports account.text with
    | some report => return kept report
    | none => fresh account

/-- Verifies an account, or returns the report that is kept for it. Only verified reports are kept.
The time stays the same throughout. -/
def verifyAccount (v : Verifier) (backend : Backend) (now : UInt64) (account : String) :
    StateM State (Except Failure Report) :=
  unlessReported now account (fun e => .error (.ofUrlError e)) .ok fun account => do
    match ← v.runLayers backend now account with
    | .error f => return .error f
    | .ok o =>
      let report := report now account o
      if report.verified then
        remember now .reports account.text report
        return .ok report
      else return .ok report

/-- Whether an account reaches full trust. A failure counts as no. -/
def isVerified (v : Verifier) (backend : Backend) (now : UInt64) (account : String) :
    StateM State Bool := do
  match ← v.verifyAccount backend now account with
  | .ok report => return report.verified
  | .error _ => return false

end Verifier

end LightClient
