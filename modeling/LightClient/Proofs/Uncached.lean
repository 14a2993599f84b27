import LightClient.Proofs.Layers
import LightClient.Proofs.Retention

/-!
# Verification without a cache

The layers as they run when nothing has been kept: every layer asks the backend. A verification with
a cache that holds nothing for the tables that are still to be consulted takes the same course, with
the same questions in the same order.
-/
namespace LightClient.Verifier

namespace Uncached

def findInclusion (v : Verifier) (backend : Backend) (account : Url) : Inquiry Inclusion := do
  let chain := v.config.chain
  let index ← backend.ask ("querying head of chain " ++ Text.quoted chain ++ s!" under {account}")
    (.chainHead account chain)
  Inclusion.build backend account chain index

/-- The finding of the signature layer for a block with a header of another application hash. -/
def unboundFinding (partition : Url) (block : Block) (f : Failure) : Finding :=
  (Finding.failed Layer.blockSignatures.name f)
    |>.withDetail "partition" (.string partition.text)
    |>.withDetail "height" (Json.encode block.height)
    |>.withDetail "data_unavailable" (.bool false)

def verifySignatures (backend : Backend) (partition : Url) (block : Block) :
    StateM Journal (Finding × Option Finality) :=
  match HeaderTree.checkAppHash block with
  | .error f => return (unboundFinding partition block f, none)
  | .ok () => Commit.verifyFetched backend partition block

/-- What the genesis layer makes of a walk that does not succeed. -/
def untraced (v : Verifier) (height : Int64) (f : Failure) : Except Failure Finding :=
  if f.aborts then .error (.context s!"tracing validators of height {height} to genesis" f)
  else
    .ok ((Finding.failed Layer.genesisTrust.name f)
      |>.withDetail "genesis_hash" (.string v.genesis.hash.toHex)
      |>.withDetail "current_height" (Json.encode height)
      |>.withDetail "data_unavailable" (.bool (Commit.isDataGap f)))

def verifyGenesis (v : Verifier) (backend : Backend) (finality : Finality) :
    StateM Journal (Except Failure Finding) := do
  match ← (v.traceGenesis backend finality.validators finality.blockHeight).run with
  | .ok trace => return .ok trace.finding
  | .error f => return untraced v finality.blockHeight f

def runSigned (v : Verifier) (backend : Backend) (o : Outcome) (partition : Url) (block : Block) :
    StateM Journal (Except Failure Outcome) := do
  let (finding, finality?) ← verifySignatures backend partition block
  let o := { o with anchored := true }.record finding
  match finality? with
  | none => return .ok (o.stopAfter .blockSignatures "block signatures were not verified")
  | some finality =>
    match ← verifyGenesis v backend finality with
    | .error f => return .error f
    | .ok finding =>
      let o := { o with signed := true, traced := finding.valid, finality := some finality }
      return .ok (o.record finding)

def runAnchored (v : Verifier) (backend : Backend) (o : Outcome) (home : Url) (root : Hash)
    (homeBlock : Block) : StateM Journal (Except Failure Outcome) := do
  if v.anchoring.requiresAnchor home then
    let (finding, anchored?) ← v.anchoring.verifyAnchor backend home root
    match anchored? with
    | some anchored =>
      runSigned v backend (o.record finding) v.authority anchored.authorityBlock
    | none =>
      return .ok ((o.record finding).stopAfter .partitionAnchor
        "partition anchor was not established")
  else runSigned v backend (o.record (anchorNotRequired home)) home homeBlock

def runCommitted (v : Verifier) (backend : Backend) (o : Outcome) (p : Inclusion) :
    StateM Journal (Except Failure Outcome) := do
  match Url.parse p.sourcePartition with
  | .error _ =>
    let f := Failure.partitionResolution p.localBlock (some p.sourcePartition)
    return .ok ((o.record (.failed Layer.stateCommitment.name f)).stopAfter .stateCommitment
      "home partition is not a valid URL")
  | .ok home =>
    let (finding, block?) ← Anchoring.verifyState backend home p.anchor p.localBlock
    match block? with
    | none =>
      return .ok ((o.record finding).stopAfter .stateCommitment
        "state commitment was not established")
    | some block => runAnchored v backend (o.record finding) home p.anchor block

/-- What the layers come to when the first one has failed. -/
def unincluded (account : Url) (f : Failure) : Except Failure Outcome :=
  if f.aborts then .error f
  else
    let finding := (Finding.failed Layer.entryInclusion.name f).withDetail "scope"
      (.string account.text)
    .ok ((Outcome.start.record finding).stopAfter .entryInclusion
      "entry inclusion was not established")

/-- What the layers have come to after the first one. -/
def afterInclusion (v : Verifier) (p : Inclusion) : Outcome :=
  let finding := p.finding v.config.algorithm
  { Outcome.start with inclusion := some p, included := finding.valid }.record finding

def runLayers (v : Verifier) (backend : Backend) (account : Url) :
    StateM Journal (Except Failure Outcome) := do
  match ← (findInclusion v backend account).run with
  | .error f => return unincluded account f
  | .ok inclusion =>
    let o := afterInclusion v inclusion
    if (inclusion.finding v.config.algorithm).valid then runCommitted v backend o inclusion
    else return .ok (o.stopAfter .entryInclusion "entry inclusion failed verification")

def verifyAccount (v : Verifier) (backend : Backend) (now : UInt64) (account : String) :
    StateM Journal (Except Failure Report) := do
  match Url.parse account with
  | .error e => return .error (.ofUrlError e)
  | .ok account =>
    match ← runLayers v backend account with
    | .error f => return .error f
    | .ok o => return .ok (report now account o)

section
variable (v : Verifier) (backend : Backend)

theorem verifySignatures_asks (partition : Url) (block : Block) :
    Asks backend (verifySignatures backend partition block) := by
  unfold verifySignatures
  cases HeaderTree.checkAppHash block with
  | error f => exact .pure _
  | ok _ => exact Commit.verifyFetched_asks block

theorem verifyGenesis_asks (f : Finality) : Asks backend (verifyGenesis v backend f) := by
  refine (traceGenesis_asks _ _).bind fun result => ?_
  cases result with
  | ok trace => exact .pure _
  | error f => exact .pure _

theorem runSigned_asks (o : Outcome) (partition : Url) (block : Block) :
    Asks backend (runSigned v backend o partition block) := by
  refine (verifySignatures_asks backend partition block).bind fun ⟨finding, finality?⟩ => ?_
  cases finality? with
  | none => exact .pure _
  | some finality =>
    refine (verifyGenesis_asks v backend finality).bind fun result => ?_
    cases result with
    | error f => exact .pure _
    | ok finding => exact .pure _

theorem runAnchored_asks (o : Outcome) (home : Url) (root : Hash) (block : Block) :
    Asks backend (runAnchored v backend o home root block) := by
  unfold runAnchored
  split
  · refine Anchoring.verifyAnchor_asks.bind fun ⟨finding, anchored?⟩ => ?_
    cases anchored? with
    | none => exact .pure _
    | some anchored => exact runSigned_asks v backend _ _ _
  · exact runSigned_asks v backend _ _ _

theorem runCommitted_asks (o : Outcome) (p : Inclusion) :
    Asks backend (runCommitted v backend o p) := by
  unfold runCommitted
  cases Url.parse p.sourcePartition with
  | error e => exact .pure _
  | ok home =>
    refine (Anchoring.verifyState_asks home p.localBlock).bind fun ⟨finding, block?⟩ => ?_
    cases block? with
    | none => exact .pure _
    | some block => exact runAnchored_asks v backend _ _ _ _

end

end Uncached

theorem State.bind_apply {α β : Type} (m : StateM State α) (f : α → StateM State β) (s : State) :
    (m >>= f) s = f (m s).1 (m s).2 := rfl

theorem findInclusion_apply {v : Verifier} {backend : Backend} {now : UInt64} (account : Url)
    (s : State) :
    v.findInclusion backend now account s =
      ((v.locateInclusion backend now account s).1.map Prod.fst,
        (v.locateInclusion backend now account s).2) := rfl

theorem lookup_bind_apply {α : Type} (now : UInt64) (t : Cache.Table) (key : String)
    (f : Option t.Value → StateM State α) (s : State) :
    (lookup now t key >>= f) s =
      f (s.cache.peek? t key now) ⟨(s.cache.get t key now).2, s.journal⟩ := by
  rw [← Cache.get_fst]
  rfl

/-- From a cache that lacks the tables `before`, a step comes to what `u` comes to without one and
asks the same; afterwards the cache lacks the tables `after`. -/
def Agrees {α : Type} (before after : List Cache.Table) (m : StateM State α)
    (u : StateM Journal α) :
    Prop :=
  ∀ s : State, s.cache.Lacks before →
    (m s).1 = (u s.journal).1 ∧ (m s).2.journal = (u s.journal).2 ∧ (m s).2.cache.Lacks after

namespace Agrees
variable {α β : Type} {before between after : List Cache.Table} {now : UInt64} {t : Cache.Table}
  {key : String} {u : StateM Journal α}

theorem pure (a : α) (fewer : after ⊆ before) : Agrees before after (pure a) (pure a) :=
  fun _ h => ⟨rfl, rfl, h.fewer fewer⟩

theorem asking (u : StateM Journal α) :
    Agrees before before (asking u) u := fun _ h => ⟨rfl, rfl, h⟩

theorem bind {m : StateM State α} {f : α → StateM State β} {g : α → StateM Journal β}
    (first : Agrees before between m u) (next : ∀ a, Agrees between after (f a) (g a)) :
    Agrees before after (m >>= f) (u >>= g) := fun s h => by
  obtain ⟨result, journal, lacks⟩ := first s h
  have later := next (m s).1 (m s).2 lacks
  rw [journal, result] at later
  rw [State.bind_apply, Journal.bind_apply, result]
  exact later

/-- A lookup in a table that is lacking finds nothing. -/
theorem lookup_bind {f : Option t.Value → StateM State α} (lacking : t ∈ before)
    (next : Agrees before after (f none) u) :
    Agrees before after (lookup now t key >>= f) u := fun s h => by
  rw [lookup_bind_apply, h.peek? lacking]
  exact next ⟨(s.cache.get t key now).2, s.journal⟩ (Cache.Holds.get h)

variable (between) in
theorem remember_bind {value : t.Value} {m : StateM State α} (fewer : between ⊆ before)
    (other : t ∉ between) (next : Agrees between after m u) :
    Agrees before after (remember now t key value >>= fun _ => m) u := fun s h =>
  next ⟨s.cache.store t key value now none, s.journal⟩ ((h.fewer fewer).store other)

theorem rememberInclusion_bind {p : Inclusion} {m : StateM State α} (fewer : between ⊆ before)
    (receipts : Cache.Table.receipts ∉ between) (inclusions : Cache.Table.inclusions ∉ between)
    (next : Agrees between after m u) :
    Agrees before after (rememberInclusion now p >>= fun _ => m) u := fun s h =>
  next ⟨(s.cache.store .receipts _ p.receipt now none).store .inclusions _ p now none, s.journal⟩
    (((h.fewer fewer).store receipts).store inclusions)

/-- The end of a step may be left out. -/
theorem ends {m : StateM State α} {f : α → StateM State α} (first : Agrees before between m u)
    (next : ∀ a, Agrees between after (f a) (Pure.pure a)) : Agrees before after (m >>= f) u := by
  have same : u >>= Pure.pure = u := rfl
  rw [← same]
  exact first.bind next

end Agrees

section
variable (v : Verifier) (backend : Backend) (now : UInt64)

/-- Without a cache every inclusion is made of the backend's answers. -/
theorem locateInclusion_agrees (account : Url) :
    Agrees [.inclusions, .finalities, .traces] [.finalities, .traces]
      (locateInclusion v backend now account)
      ((Uncached.findInclusion v backend account).run >>= fun found =>
        pure (found.map (·, true))) := by
  change Agrees _ _ _ ((backend.ask _ (.chainHead account v.config.chain)).run >>= fun answered =>
    ExceptT.bindCont (Inclusion.build backend account v.config.chain) answered >>= fun found =>
      pure (found.map (·, true)))
  refine (Agrees.asking _).bind fun result => ?_
  cases result with
  | error f => exact .pure _ (by simp)
  | ok index =>
    refine .lookup_bind (by simp) ?_
    exact fun s h => ⟨rfl, rfl, h.fewer (by simp)⟩

theorem findInclusion_agrees (account : Url) :
    Agrees [.inclusions, .finalities, .traces] [.finalities, .traces]
      (findInclusion v backend now account) (Uncached.findInclusion v backend account).run := by
  intro s lacks
  obtain ⟨result, journal, lacks⟩ := locateInclusion_agrees v backend now account s lacks
  refine ⟨?_, journal, lacks⟩
  rw [findInclusion_apply, result, Journal.bind_apply]
  cases ((Uncached.findInclusion v backend account).run s.journal).1 <;> rfl

theorem verifySignatures_agrees (partition : Url) (block : Block) :
    Agrees [.finalities, .traces] [.traces] (verifySignatures backend now partition block)
      (Uncached.verifySignatures backend partition block) := by
  unfold verifySignatures Uncached.verifySignatures
  cases HeaderTree.checkAppHash block with
  | error f => exact .pure _ (by simp)
  | ok _ =>
    refine .lookup_bind (by simp) ((Agrees.asking _).ends fun ⟨finding, finality?⟩ => ?_)
    cases finality? with
    | none => exact .pure _ (by simp)
    | some f => exact .remember_bind [.traces] (by simp) (by simp) (.pure _ (by simp))

theorem verifyGenesis_agrees (f : Finality) :
    Agrees [.traces] [] (v.verifyGenesis backend now f) (Uncached.verifyGenesis v backend f) := by
  refine .lookup_bind (by simp) ((Agrees.asking _).bind fun result => ?_)
  cases result with
  | ok trace => exact .remember_bind [] (by simp) (by simp) (.pure _ (by simp))
  | error f =>
    unfold Uncached.untraced
    dsimp only
    split <;> exact .pure _ (by simp)

theorem runSigned_agrees (o : Outcome) (partition : Url) (block : Block) :
    Agrees [.finalities, .traces] [] (v.runSigned backend now o partition block)
      (Uncached.runSigned v backend o partition block) := by
  refine (verifySignatures_agrees backend now partition block).bind fun ⟨finding, finality?⟩ => ?_
  cases finality? with
  | none => exact .pure _ (by simp)
  | some f =>
    refine (verifyGenesis_agrees v backend now f).bind fun result => ?_
    cases result <;> exact .pure _ (by simp)

theorem runAnchored_agrees (o : Outcome) (home : Url) (root : Hash) (block : Block) :
    Agrees [.finalities, .traces] [] (v.runAnchored backend now o home root block)
      (Uncached.runAnchored v backend o home root block) := by
  unfold runAnchored Uncached.runAnchored
  split
  · refine (Agrees.asking _).bind fun ⟨finding, anchored?⟩ => ?_
    cases anchored? with
    | none => exact .pure _ (by simp)
    | some anchored => exact runSigned_agrees v backend now _ _ _
  · exact runSigned_agrees v backend now _ _ _

theorem runCommitted_agrees (o : Outcome) (p : Inclusion) :
    Agrees [.finalities, .traces] [] (v.runCommitted backend now o p)
      (Uncached.runCommitted v backend o p) := by
  unfold runCommitted Uncached.runCommitted
  cases Url.parse p.sourcePartition with
  | error e => exact .pure _ (by simp)
  | ok home =>
    refine (Agrees.asking _).bind fun ⟨finding, block?⟩ => ?_
    cases block? with
    | none => exact .pure _ (by simp)
    | some block => exact runAnchored_agrees v backend now _ _ _ _

theorem runLayers_agrees (account : Url) :
    Agrees [.inclusions, .finalities, .traces] [] (v.runLayers backend now account)
      (Uncached.runLayers v backend account) := by
  refine (findInclusion_agrees v backend now account).bind fun result => ?_
  cases result with
  | error f =>
    unfold Uncached.unincluded
    dsimp only
    split <;> exact .pure _ (by simp)
  | ok p =>
    dsimp only
    split
    · exact .rememberInclusion_bind (by simp) (by simp) (by simp)
        (runCommitted_agrees v backend now _ p)
    · exact .pure _ (by simp)

/-- A verification with a cache in which nothing is kept asks all that is to be asked. -/
theorem verifyAccount_agrees (account : String) :
    Agrees [.reports, .inclusions, .finalities, .traces] [] (v.verifyAccount backend now account)
      (Uncached.verifyAccount v backend now account) := by
  unfold verifyAccount unlessReported Uncached.verifyAccount
  cases Url.parse account with
  | error e => exact .pure _ (by simp)
  | ok account =>
    refine .lookup_bind (by simp) ?_
    have layers : Agrees [.reports, .inclusions, .finalities, .traces] []
        (v.runLayers backend now account)
        (Uncached.runLayers v backend account) :=
      fun s h => runLayers_agrees v backend now account s (h.fewer (by simp))
    refine layers.bind fun result => ?_
    cases result with
    | error f => exact .pure _ (by simp)
    | ok o =>
      dsimp only
      split
      · exact .remember_bind [] (by simp) (by simp) (.pure _ (by simp))
      · exact .pure _ (by simp)

end

end LightClient.Verifier
