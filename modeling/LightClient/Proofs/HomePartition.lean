import LightClient.Proofs.Backing
import LightClient.Proofs.Lifetime

/-!
# The home partition of an inclusion

An inclusion names its home partition by a text, which is read as a URL again when the next layer
begins. What the first layer builds names it in normal form, and it agrees with what was asked for
and with the receipt in it. The cache gives back what was built. So what is left to fail in the
first layer is the path of the receipt, and no run of the layers ends because a home partition is
not a URL.
-/
namespace LightClient

/-- A text that reading and writing a URL leave as it is. -/
def Url.Normalized (text : String) : Prop := ∃ u : Url, Url.parse text = .ok u ∧ u.text = text

theorem Url.normalized_text (u : Url) : Normalized u.text := ⟨u, parse_text u, rfl⟩

namespace Inclusion
variable {backend : Backend} {scope : Url} {chain : String} {index : UInt64} {j j' : Journal}
  {p : Inclusion}

/-- The inclusion is of the position asked for, holds what the backend answered for it, agrees with
its receipt and names a partition that is accepted and in normal form. -/
structure Faithful (backend : Backend) (scope : Url) (chain : String) (index : UInt64) (j : Journal)
    (p : Inclusion) : Prop where
  answer : backend j (.chainEntry scope chain index) = .ok ⟨p.leaf, some p.receipt⟩
  scope : p.scope = scope
  chain : p.chain = chain
  index : p.index = index
  nonzero : p.leaf ≠ .zero
  leaf : p.leaf = p.receipt.start
  anchor : p.anchor = p.receipt.anchor
  localBlock : p.localBlock = p.receipt.localBlock
  accepted : Partition.accepted p.sourcePartition = true
  normalized : Url.Normalized p.sourcePartition

theorem Built.faithful (h : Built backend scope chain index j p j') :
    p.Faithful backend scope chain index j := by
  obtain ⟨-, entry, record, text, home, between, given, attached, nonzero, start, -, -,
      accepted, parsed,
    same⟩ := h
  obtain ⟨hash, receipt⟩ := entry
  obtain rfl : receipt = some p.receipt := attached
  have named := Partition.accepted_text accepted parsed
  rw [same]
  exact ⟨given.1, rfl, rfl, rfl, nonzero, start, rfl, rfl, named, home.normalized_text⟩

/-- The answers of some backend have been built into the inclusion. -/
def IsBuilt (p : Inclusion) : Prop :=
  ∃ backend scope chain index j, ((build backend scope chain index).run j).1 = .ok p

theorem faithful_of_build (built : ((build backend scope chain index).run j).1 = .ok p) :
    p.Faithful backend scope chain index j := by
  obtain ⟨j', yields⟩ := Inquiry.exists_yields.2 built
  exact (build_yields.1 yields).faithful

theorem IsBuilt.home (h : p.IsBuilt) : ∃ home, Url.parse p.sourcePartition = .ok home := by
  obtain ⟨backend, scope, chain, index, j, built⟩ := h
  obtain ⟨home, parsed, -⟩ := (faithful_of_build built).normalized
  exact ⟨home, parsed⟩

/-- Only the path of the receipt can fail for what was built. -/
theorem IsBuilt.check_fails_iff (h : p.IsBuilt) (algorithm : HashAlgorithm) :
    (∃ f, p.check algorithm = .error f) ↔
      Receipt.maxSteps < p.receipt.steps.length ∨ p.receipt.root algorithm ≠ p.receipt.anchor := by
  obtain ⟨backend, scope, chain, index, j, built⟩ := h
  have faithful := faithful_of_build built
  have holds : p.check algorithm = .ok () ↔ p.receipt.Replays algorithm :=
    check_eq_ok.trans ⟨Holds.replays, fun replays =>
      ⟨faithful.leaf, faithful.anchor, faithful.localBlock, faithful.accepted, replays⟩⟩
  have fails : (∃ f, p.check algorithm = .error f) ↔ ¬ p.receipt.Replays algorithm := by
    rw [← holds]
    cases p.check algorithm <;> simp
  rw [fails]
  constructor
  · intro broken
    by_cases short : p.receipt.steps.length ≤ Receipt.maxSteps
    · exact .inr fun reaches => broken ⟨short, reaches⟩
    · exact .inl (Nat.lt_of_not_le short)
  · rintro (long | misses) replays
    · exact Nat.not_le.2 long replays.short
    · exact misses replays.reaches

end Inclusion

/-- Why layers are skipped if a home partition is not a URL. -/
def lostHome : String := "home partition is not a valid URL"

/-- The report tells that layers were skipped because the home partition is not a URL. -/
def Report.LosesHome (r : Report) : Prop :=
  ∃ x ∈ r.findings, x.isSkipped = true ∧ x.errorMessage = some lostHome

namespace Verifier
variable {v : Verifier} {backend : Backend} {now : UInt64} {s : State} {layer : Layer} {x : Finding}
  {p : Inclusion} {o : Outcome}

/-! ## Findings of layers that ran -/

theorem stateFinding_ran (partition : Url) (height : UInt64) (asked : Except Failure Block) :
    (Anchoring.stateFinding partition height asked).1.isSkipped = false := by
  cases asked with
  | ok block => exact (Anchoring.stateFinding_passes partition height block).ran
  | error f => exact (Anchoring.stateFinding_fails partition height f).ran

theorem anchorFinding_ran (a : Anchoring) (source : Url) (root : Hash)
    (sought : Except Failure AnchoredRoot) :
    (a.anchorFinding source root sought).1.isSkipped = false := by
  cases sought with
  | ok anchored => exact (a.anchorFinding_passes source root anchored).ran
  | error f => exact (a.anchorFinding_fails source root f).ran

theorem fetchedFinding_ran (partition : Url) (block : Block)
    (fetched : Except Failure (List Validator × Commit)) :
    (Commit.fetchedFinding partition block fetched).1.isSkipped = false := by
  cases fetched with
  | error f => exact (Commit.fetchedFinding_unfetched partition block f).ran
  | ok data =>
    obtain ⟨validators, commit⟩ := data
    cases checked : Commit.check block commit validators with
    | ok result => exact (Commit.fetchedFinding_of_ok checked).1.ran
    | error f => exact (Commit.fetchedFinding_of_error checked).1.ran

theorem inclusionFinding_ran (algorithm : HashAlgorithm) (p : Inclusion) :
    (p.finding algorithm).isSkipped = false := by
  cases checked : p.check algorithm with
  | ok _ => exact (Inclusion.finding_passes checked).ran
  | error f => exact (Inclusion.finding_fails checked).ran

theorem fetchSignatures_ran (partition : Url) (block : Block) :
    Ensures (fun result => result.1.isSkipped = false)
      (fetchSignatures backend now partition block) := by
  have fetched : Ensures (fun result => result.1.isSkipped = false)
      (asking (Commit.verifyFetched backend partition block)) :=
    .asking fun _ => fetchedFinding_ran partition block _
  refine fetched.bind fun result ran => ?_
  obtain ⟨finding, finality?⟩ := result
  cases finality? with
  | none => exact .pure ran
  | some finality => exact .remember_bind (by decide) (.pure ran)

theorem verifySignatures_ran (partition : Url) (block : Block) :
    Ensures (fun result => result.1.isSkipped = false)
      (verifySignatures backend now partition block) := by
  unfold verifySignatures
  cases HeaderTree.checkAppHash block with
  | error f => exact .pure (unboundFinding_fails partition block f).ran
  | ok _ =>
    refine .lookup_bind fun found => ?_
    cases found with
    | none => exact fetchSignatures_ran partition block
    | some finality =>
      dsimp only
      split
      · exact .pure (rememberedFinality_passes partition block finality).ran
      · exact fetchSignatures_ran partition block

theorem verifyGenesis_ran (finality : Finality) :
    Ensures (fun result => ∀ x, result = .ok x → x.isSkipped = false)
      (v.verifyGenesis backend now finality) := by
  unfold verifyGenesis
  refine .lookup_bind fun found => ?_
  cases found with
  | some trace =>
    refine .pure fun x same => ?_
    obtain rfl := Except.ok.inj same
    exact (Finding.isSkipped_withDetail _ _ (by decide)).trans (finding_passes trace).ran
  | none =>
    refine (Ensures.asked _).bind fun result _ => ?_
    cases result with
    | ok trace =>
      refine .remember_bind (by decide) (.pure fun x same => ?_)
      obtain rfl := Except.ok.inj same
      exact (finding_passes trace).ran
    | error f =>
      dsimp only
      split
      · exact .pure fun x same => nomatch same
      · refine .pure fun x same => ?_
        obtain rfl := Except.ok.inj same
        exact (show Layer.genesisTrust.Fails f _ by simp).ran

/-! ## Why layers are skipped -/

/-- No layer was skipped for want of a home partition. -/
def Outcome.Homed (o : Outcome) : Prop :=
  ∀ x ∈ o.recorded ++ o.skipped, x.isSkipped = true → x.errorMessage ≠ some lostHome

/-- The run ends with a failure or without such a skip. -/
def Homed (result : Except Failure Outcome) : Prop := ∀ o, result = .ok o → o.Homed

theorem Outcome.Homed.ok (h : o.Homed) : Verifier.Homed (.ok o) := fun _ same =>
  Except.ok.inj same ▸ h

theorem Homed.error {f : Failure} : Homed (.error f) := fun _ same => nomatch same

theorem Outcome.Homed.record (h : o.Homed) (ran : x.isSkipped = false) : (o.record x).Homed := by
  intro y member skips
  simp only [Outcome.record, List.mem_append, List.mem_singleton] at member
  rcases member with (old | rfl) | old
  · exact h y (List.mem_append_left _ old) skips
  · cases ran.symm.trans skips
  · exact h y (List.mem_append_right _ old) skips

theorem Outcome.Homed.stopAfter (h : o.Homed) (layer : Layer) {reason : String}
    (other : reason ≠ lostHome) : (o.stopAfter layer reason).Homed := by
  intro y member skips
  rcases List.mem_append.1 member with old | new
  · exact h y (List.mem_append_left _ old) skips
  · obtain ⟨skipped, -, rfl⟩ := List.mem_map.1 new
    exact fun same => other (Option.some.inj same)

theorem runSigned_homed (partition : Url) (block : Block) (h : o.Homed) :
    Ensures Homed (v.runSigned backend now o partition block) := by
  refine (verifySignatures_ran partition block).bind fun result ran => ?_
  obtain ⟨x, finality?⟩ := result
  have signed : ({ o with anchored := true }.record x).Homed := Outcome.Homed.record h ran
  cases finality? with
  | none => exact .pure (signed.stopAfter _ (by decide)).ok
  | some finality =>
    refine (verifyGenesis_ran finality).bind fun result ran => ?_
    cases result with
    | error f => exact .pure Homed.error
    | ok y =>
      refine .pure (Outcome.Homed.ok (Outcome.Homed.record ?_ (ran y rfl)))
      exact signed

theorem runAnchored_homed (home : Url) (root : Hash) (block : Block) (h : o.Homed) :
    Ensures Homed (v.runAnchored backend now o home root block) := by
  unfold runAnchored
  split
  · have sought : Ensures (fun result => result.1.isSkipped = false)
        (asking (v.anchoring.verifyAnchor backend home root)) :=
      .asking fun _ => anchorFinding_ran v.anchoring home root _
    refine sought.bind fun result ran => ?_
    obtain ⟨x, anchored?⟩ := result
    cases anchored? with
    | none => exact .pure ((h.record ran).stopAfter _ (by decide)).ok
    | some anchored => exact runSigned_homed _ _ (h.record ran)
  · exact runSigned_homed _ _ (h.record (anchorNotRequired_passes home).ran)

theorem runCommitted_homed {home : Url} (parsed : Url.parse p.sourcePartition = .ok home)
    (h : o.Homed) :
    Ensures Homed (v.runCommitted backend now o p) := by
  unfold runCommitted
  rw [parsed]
  have committed : Ensures (fun result => result.1.isSkipped = false)
      (asking (Anchoring.verifyState backend home p.anchor p.localBlock)) :=
    .asking fun _ => stateFinding_ran home p.localBlock _
  refine committed.bind fun result ran => ?_
  obtain ⟨x, block?⟩ := result
  cases block? with
  | none => exact .pure ((h.record ran).stopAfter _ (by decide)).ok
  | some block => exact runAnchored_homed home p.anchor block (h.record ran)

/-- The layers after the first tell of a lost home exactly if the inclusion names no URL. -/
theorem runCommitted_homed_iff (h : o.Homed) :
    Homed (v.runCommitted backend now o p s).1 ↔
      ∃ home, Url.parse p.sourcePartition = .ok home := by
  constructor
  · intro homed
    cases parsed : Url.parse p.sourcePartition with
    | ok home => exact ⟨home, rfl⟩
    | error e =>
      unfold runCommitted at homed
      rw [parsed] at homed
      have skipped : .skipped Layer.partitionAnchor.name lostHome ∈
          Layer.stateCommitment.after.map fun layer => Finding.skipped layer.name lostHome :=
        List.mem_map_of_mem (by decide)
      exact absurd rfl (homed _ rfl _ (List.mem_append_right _ skipped) rfl)
  · rintro ⟨home, parsed⟩
    exact (runCommitted_homed parsed h s).1

end Verifier

namespace Cache

/-- What the inclusions in a cache satisfy. -/
def Inclusions (K : Inclusion → Prop) : (t : Table) → String → t.Value → Prop
  | .inclusions, _, p => K p
  | .reports, _, _ | .receipts, _, _ | .finalities, _, _ | .traces, _, _ => True

theorem inclusions_of_ne {K : Inclusion → Prop} {t : Table} (other : t ≠ .inclusions) (key : String)
    (value : t.Value) : Inclusions K t key value := by
  cases t with
  | inclusions => exact absurd rfl other
  | _ => trivial

/-- What adds nothing to a table keeps what holds of this table alone. -/
theorem Gains.holds {P : (t : Table) → String → t.Value → Prop} {t : Table} {c c' : Cache}
    (gains : c.Gains (·.table ≠ t) c') (alone : ∀ t', t' ≠ t → ∀ key value, P t' key value)
    (h : c.Holds P) : c'.Holds P := by
  intro b hb
  rcases gains b hb with other | ⟨b₀, hb₀, same⟩
  · exact alone _ other _ _
  · have kept := h b₀ hb₀
    obtain ⟨t, key, e⟩ := b
    obtain ⟨t₀, key₀, e₀⟩ := b₀
    obtain rfl : t₀ = t := congrArg Record.table same
    obtain rfl : key₀ = key := congrArg Record.key same
    have content := congrArg Record.content same
    have value : e₀.value = e.value := eq_of_heq (Sigma.mk.inj content).2
    exact value ▸ kept

/-- A cache in which every inclusion was built and no report has lost its home. -/
structure Homed (c : Cache) : Prop where
  inclusions : c.Holds (Inclusions (·.IsBuilt))
  reports : c.Holds (Reports fun r => ¬ r.LosesHome)

theorem homed_empty (settings : CacheConfig) : (empty settings).Homed :=
  ⟨holds_empty settings, holds_empty settings⟩

theorem Homed.of_subset {c c' : Cache} (h : c.Homed) (fewer : c'.bindings ⊆ c.bindings) :
    c'.Homed :=
  ⟨h.inclusions.of_subset fewer, h.reports.of_subset fewer⟩

end Cache

namespace Verifier
variable {v : Verifier} {backend : Backend} {now : UInt64} {s : State} {p : Inclusion}

/-! ## The cache gives back what was built -/

theorem built_of_found {account : Url} (kept : s.cache.Holds (Cache.Inclusions (·.IsBuilt)))
    (found : (v.findInclusion backend now account s).1 = .ok p) : p.IsBuilt := by
  rw [findInclusion_apply] at found
  obtain ⟨⟨q, fetched⟩, located, rfl⟩ := Failure.map_eq_ok.1 found
  obtain ⟨index, -, ⟨-, cached⟩ | ⟨-, journal, built⟩⟩ := cases_of_located located
  · exact kept.of_peek? cached
  · exact ⟨backend, account, v.config.chain, index, journal, built⟩

/-- A run of the layers keeps what holds of the inclusions alone, if it holds of the one that is
found, under the key of its own position. -/
theorem runLayers_keeps {P : (t : Cache.Table) → String → t.Value → Prop}
    (alone : ∀ t, t ≠ .inclusions → ∀ key value, P t key value) (account : Url)
    (kept : s.cache.Holds P) (new : ∀ p, (v.findInclusion backend now account s).1 = .ok p →
      P .inclusions (positionKey p.scope p.chain p.index) p) :
    (v.runLayers backend now account s).2.cache.Holds P := by
  have kept' : (v.findInclusion backend now account s).2.cache.Holds P := by
    have spared : Spares .inclusions (v.findInclusion backend now account) :=
      (findInclusion_stores account).spares List.not_mem_nil
    exact (spared s).2.holds alone kept
  unfold runLayers
  rw [State.bind_apply]
  generalize v.findInclusion backend now account s = found at new kept' ⊢
  obtain ⟨result, s₁⟩ := found
  cases result with
  | error f =>
    dsimp only
    split <;> exact kept'
  | ok p =>
    dsimp only
    split
    · rw [State.bind_apply]
      have receipt : (s₁.cache.store .receipts (positionKey p.scope p.chain p.index) p.receipt now
          none).Holds P := kept'.store (alone _ (by decide) _ _)
      have remembered : (rememberInclusion now p s₁).2.cache.Holds P := receipt.store (new p rfl)
      exact ((runCommitted_stores _ p).spares (by decide) _).2.holds alone remembered
    · exact kept'

/-- A run of the layers keeps its home if the inclusion that is found was built. -/
theorem runLayers_homed (account : Url)
    (built : ∀ p, (v.findInclusion backend now account s).1 = .ok p → p.IsBuilt) :
    Homed (v.runLayers backend now account s).1 := by
  have start : Outcome.start.Homed := fun x member => nomatch member
  unfold runLayers
  rw [State.bind_apply]
  generalize v.findInclusion backend now account s = found at built ⊢
  obtain ⟨result, s₁⟩ := found
  cases result with
  | error f =>
    dsimp only
    split
    · exact Homed.error
    · have ran : ((Finding.failed Layer.entryInclusion.name f).withDetail "scope"
          (.string account.text)).isSkipped = false :=
        (show Layer.entryInclusion.Fails f _ by simp).ran
      exact ((start.record ran).stopAfter _ (by decide)).ok
  | ok p =>
    have ran := inclusionFinding_ran v.config.algorithm p
    have included (valid : Bool) :
        { Outcome.start with inclusion := some p, included := valid }.Homed := start
    dsimp only
    split
    · rw [State.bind_apply]
      exact (runCommitted_homed_iff ((included _).record ran)).2 (built p rfl).home
    · exact (((included _).record ran).stopAfter _ (by decide)).ok

/-- A verification keeps its home, and the cache keeps to what was built. -/
theorem verifyAccount_homed (account : String) (kept : s.cache.Homed) :
    (∀ r, (v.verifyAccount backend now account s).1 = .ok r → ¬ r.LosesHome) ∧
      (v.verifyAccount backend now account s).2.cache.Homed := by
  unfold verifyAccount unlessReported
  cases Url.parse account with
  | error e => exact ⟨fun r returned => (nomatch returned), kept⟩
  | ok u =>
    dsimp only
    rw [lookup_bind_apply]
    have looked : (s.cache.get .reports u.text now).2.Homed :=
      ⟨kept.inclusions.get, kept.reports.get⟩
    cases found : s.cache.peek? .reports u.text now with
    | some r =>
      have own : ¬ r.LosesHome := kept.reports.of_peek? found
      exact ⟨fun r' returned => Except.ok.inj returned ▸ own, looked⟩
    | none =>
      dsimp only
      rw [State.bind_apply]
      have built (p : Inclusion) : (v.findInclusion backend now u
          ⟨(s.cache.get .reports u.text now).2, s.journal⟩).1 = .ok p → p.IsBuilt :=
        built_of_found looked.inclusions
      have homed := runLayers_homed u built
      have inclusions : (v.runLayers backend now u
          ⟨(s.cache.get .reports u.text now).2, s.journal⟩).2.cache.Holds
            (Cache.Inclusions (·.IsBuilt)) :=
        runLayers_keeps (fun _ other => Cache.inclusions_of_ne other) u looked.inclusions built
      have ensures : Ensures Earned (v.runLayers backend now u) := runLayers_ensures u
      have reports := (ensures ⟨(s.cache.get .reports u.text now).2, s.journal⟩).2 _ looked.reports
      generalize v.runLayers backend now u ⟨_, s.journal⟩ = result at homed inclusions reports ⊢
      obtain ⟨result, s'⟩ := result
      cases result with
      | error f => exact ⟨fun r returned => (nomatch returned), inclusions, reports⟩
      | ok o =>
        have own : ¬ (report now u o).LosesHome := fun ⟨x, member, skips, reason⟩ =>
          homed o rfl x member skips reason
        dsimp only
        split
        · exact ⟨fun r returned => Except.ok.inj returned ▸ own, inclusions.store trivial,
            reports.store own⟩
        · exact ⟨fun r returned => Except.ok.inj returned ▸ own, inclusions, reports⟩

end Verifier

namespace Session
open Verifier

theorem run_homed {κ : Type} (callers : κ → Caller) (settings : CacheConfig) (now : UInt64)
    (actions : List (Action κ)) : ((start settings now).run callers actions).state.cache.Homed :=
  run_keeps (fun s => s.cache.Homed) (fun _ _ account h => (verifyAccount_homed account h).2)
    (fun _ _ fewer h => h.of_subset fewer) (Cache.homed_empty settings) actions

/-- What the first layer builds is faithful, and only the path of its receipt can fail the check. So
no verification loses the home of an inclusion, fresh or from the cache: none on a cache that has
only what was built, which stays so, and none in any session. -/
theorem built_inclusions_keep_home :
    (∀ backend scope chain index j p, ((Inclusion.build backend scope chain index).run j).1 =
      .ok p →
      p.Faithful backend scope chain index j) ∧
    (∀ (p : Inclusion) algorithm, p.IsBuilt → ((∃ f, p.check algorithm = .error f) ↔
      Receipt.maxSteps < p.receipt.steps.length ∨ p.receipt.root algorithm ≠ p.receipt.anchor)) ∧
    (∀ (v : Verifier) backend now account (s : State), s.cache.Homed →
      (∀ r, (v.verifyAccount backend now account s).1 = .ok r → ¬ r.LosesHome) ∧
        (v.verifyAccount backend now account s).2.cache.Homed) ∧
    ∀ (κ : Type) (callers : κ → Caller) settings now actions caller account r,
      (((start settings now).run callers actions).verify caller account).1 = .ok r →
      ¬ r.LosesHome :=
  ⟨fun _ _ _ _ _ _ => Inclusion.faithful_of_build,
    fun _ algorithm built => built.check_fails_iff algorithm,
    fun _ _ _ account _ kept => verifyAccount_homed account kept,
    fun _ callers settings now actions _ account r =>
      (verifyAccount_homed account (run_homed callers settings now actions)).1 r⟩

namespace Sample

/-- The second verification uses what the first one has built. -/
def again : Except Failure Report :=
  (((start .default 0).run (fun _ : Unit => unsigned) [.verify () "acc://alice"]).verify unsigned
    "acc://alice").1

end Sample

/-- The inclusion of the only entry of the network is faithful, and it keeps its home when it is
used again. -/
theorem used_again_keeps_home : ∃ p r,
    ((Inclusion.build (.fixed Sample.answers) .directory "main" 0).run []).1 = .ok p ∧
      p.Faithful (.fixed Sample.answers) .directory "main" 0 [] ∧
      ((∃ f, p.check .sha256 = .error f) ↔
        Receipt.maxSteps < p.receipt.steps.length ∨ p.receipt.root .sha256 ≠ p.receipt.anchor) ∧
      Sample.again = .ok r ∧ ¬ r.LosesHome ∧ (State.mk (Cache.empty .default) []).cache.Homed ∧
      (Sample.unsigned.verifier.verifyAccount Sample.unsigned.backend 0 "acc://alice"
        (State.mk (Cache.empty .default) [])).2.cache.Homed := by
  have passes :
      ((Inclusion.build (.fixed Sample.answers) .directory "main" 0).run []).1.toOption.any
      (fun _ => true) = true := by decide +kernel
  obtain ⟨p, built, -⟩ := Sample.exists_of_any passes
  have passes : Sample.again.toOption.any (fun _ => true) = true := by decide +kernel
  obtain ⟨r, returned, -⟩ := Sample.exists_of_any passes
  obtain ⟨faithful, fails, runs, sessions⟩ := built_inclusions_keep_home
  have empty : (State.mk (Cache.empty .default) []).cache.Homed := Cache.homed_empty _
  have kept := (runs Sample.unsigned.verifier Sample.unsigned.backend 0 "acc://alice" _ empty).2
  refine ⟨p, r, built, faithful _ _ _ _ _ p built, fails p .sha256 ⟨_, _, _, _, _, built⟩, returned,
    ?_, empty, kept⟩
  exact sessions Unit (fun _ => Sample.unsigned) .default 0 [.verify () "acc://alice"]
    Sample.unsigned
    "acc://alice" r returned

end Session

end LightClient
