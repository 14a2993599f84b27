import LightClient.Proofs.Uncached

/-!
# What it takes to be verified

Full trust is reached exactly if the backend has a whole chain of evidence to give: an entry whose
receipt leads to an anchor, a block of the home partition that commits the anchor, unless the home
is the authority an anchor record that leads on to an authority block, a commit that makes this
block final, and handovers that lead from the genesis to the validators who signed. No check can be
passed by, and no evidence of this form is refused.
-/
namespace LightClient.Verifier

/-- The layers ran to their end and all of them hold. -/
def Full (result : Except Failure Outcome) : Prop :=
  ∃ o, result = .ok o ∧ o.included = true ∧ o.anchored = true ∧ o.signed = true ∧ o.traced = true

theorem assess_eq_full {included anchored signed traced : Bool} :
    TrustLevel.assess included anchored signed traced = .full ↔
      included = true ∧ anchored = true ∧ signed = true ∧ traced = true := by
  cases included <;> cases anchored <;> cases signed <;> cases traced <;> decide

theorem verified_report {now : UInt64} {account : Url} {o : Outcome} :
    (report now account o).verified = true ↔
      o.included = true ∧ o.anchored = true ∧ o.signed = true ∧ o.traced = true := by
  rw [Report.verified, decide_eq_true_iff]
  exact assess_eq_full

namespace Uncached
variable {v : Verifier} {backend : Backend} {o : Outcome} {j : Journal}

theorem not_full_of_unsigned (h : o.signed = false) : ¬ Full (.ok o) := by
  intro h
  obtain ⟨_, same, -, -, signed, -⟩ := h
  obtain rfl := Except.ok.inj same
  rw [h] at signed
  cases signed

theorem verifySignatures_eq_some {partition : Url} {block : Block} {f : Finality} :
    (verifySignatures backend partition block j).1.2 = some f ↔
      ∃ commit, ((Commit.fetch backend partition block.height).run j).1
          = .ok (f.validators, commit) ∧ commit.Finalizes block f.validators f := by
  unfold verifySignatures
  cases checked : HeaderTree.checkAppHash block with
  | error cause =>
    constructor
    · intro h
      cases h
    · intro h
      obtain ⟨commit, -, final⟩ := h
      rw [HeaderTree.checkAppHash_eq_ok.2 final.header] at checked
      cases checked
  | ok _ =>
    dsimp only
    exact Commit.verifyFetched_eq_some

theorem valid_of_untraced {height : Int64} {cause : Failure} {finding : Finding}
    (h : untraced v height cause = .ok finding) : finding.valid = false := by
  unfold untraced at h
  split at h
  · cases h
  · obtain rfl := Except.ok.inj h
    rfl

theorem verifyGenesis_valid {f : Finality} :
    (∃ finding, (verifyGenesis v backend f j).1 = .ok finding ∧ finding.valid = true) ↔
      ∃ trace, ((v.traceGenesis backend f.validators f.blockHeight).run j).1 = .ok trace := by
  unfold verifyGenesis
  rw [Journal.bind_apply]
  cases ((v.traceGenesis backend f.validators f.blockHeight).run j).1 with
  | ok trace => exact ⟨fun _ => ⟨trace, rfl⟩, fun _ => ⟨trace.finding, rfl, rfl⟩⟩
  | error cause =>
    constructor
    · intro h
      obtain ⟨finding, failed, valid⟩ := h
      rw [valid_of_untraced failed] at valid
      cases valid
    · intro h
      obtain ⟨trace, traced⟩ := h
      cases traced

theorem runSigned_full {partition : Url} {block : Block} (start : o.signed = false) :
    Full (runSigned v backend o partition block j).1 ↔ o.included = true ∧
      ∃ f, (verifySignatures backend partition block j).1.2 = some f ∧
        ∃ trace, ((v.traceGenesis backend f.validators f.blockHeight).run
          (verifySignatures backend partition block j).2).1 = .ok trace := by
  unfold runSigned
  simp only [← verifyGenesis_valid]
  rw [Journal.bind_apply]
  obtain ⟨⟨finding, finality?⟩, j₁⟩ := verifySignatures backend partition block j
  cases finality? with
  | none =>
    constructor
    · exact fun full => absurd full (not_full_of_unsigned start)
    · intro h
      obtain ⟨-, f, found, -⟩ := h
      cases found
  | some f =>
    dsimp only
    rw [Journal.bind_apply]
    constructor
    · intro full
      cases walked : (verifyGenesis v backend f j₁).1 with
      | error e =>
        rw [walked] at full
        obtain ⟨_, same, -⟩ := full
        cases same
      | ok finding =>
        rw [walked] at full
        obtain ⟨_, same, included, -, -, traced⟩ := full
        obtain rfl := Except.ok.inj same
        exact ⟨included, f, rfl, finding, walked, traced⟩
    · intro h
      obtain ⟨included, g, found, finding, walked, valid⟩ := h
      obtain rfl := Option.some.inj found
      rw [walked]
      exact ⟨_, rfl, included, rfl, rfl, valid⟩

theorem runAnchored_full {home : Url} {root : Hash} {block : Block} (start : o.signed = false) :
    Full (runAnchored v backend o home root block j).1 ↔
      (home = v.authority ∧
        Full (runSigned v backend (o.record (anchorNotRequired home)) home block j).1) ∨
      home ≠ v.authority ∧ ∃ anchored,
        (v.anchoring.verifyAnchor backend home root j).1.2 = some anchored ∧
        Full (runSigned v backend (o.record (v.anchoring.verifyAnchor backend home root j).1.1)
          v.authority anchored.authorityBlock
            (v.anchoring.verifyAnchor backend home root j).2).1 := by
  unfold runAnchored
  by_cases own : home = v.authority
  · have free : ¬ v.anchoring.requiresAnchor home = true := fun needs =>
      requiresAnchor_iff.1 needs own
    rw [if_neg free]
    simp [own]
  · have bound := requiresAnchor_iff.2 own
    rw [if_pos bound, Journal.bind_apply]
    obtain ⟨⟨finding, anchored?⟩, j₁⟩ := v.anchoring.verifyAnchor backend home root j
    cases anchored? with
    | none =>
      constructor
      · exact fun full => absurd full (not_full_of_unsigned start)
      · rintro (⟨same, -⟩ | ⟨-, anchored, found, -⟩)
        · exact absurd same own
        · cases found
    | some anchored => simp [own]

theorem runCommitted_full {p : Inclusion} (start : o.signed = false) :
    Full (runCommitted v backend o p j).1 ↔ ∃ home block,
      Url.parse p.sourcePartition = .ok home ∧
      (Anchoring.verifyState backend home p.anchor p.localBlock j).1.2 = some block ∧
      Full (runAnchored v backend
        (o.record (Anchoring.verifyState backend home p.anchor p.localBlock j).1.1) home
          p.anchor block
        (Anchoring.verifyState backend home p.anchor p.localBlock j).2).1 := by
  unfold runCommitted
  cases Url.parse p.sourcePartition with
  | error e =>
    constructor
    · exact fun full => absurd full (not_full_of_unsigned start)
    · intro h
      obtain ⟨home, block, same, -⟩ := h
      cases same
  | ok home =>
    dsimp only
    rw [Journal.bind_apply]
    constructor
    · intro full
      refine ⟨home, ?_⟩
      revert full
      obtain ⟨⟨finding, block?⟩, j₁⟩ := Anchoring.verifyState backend home p.anchor p.localBlock j
      cases block? with
      | none => exact fun full => absurd full (not_full_of_unsigned start)
      | some block => exact fun full => ⟨block, rfl, rfl, full⟩
    · intro h
      obtain ⟨_, block, same, committed, full⟩ := h
      obtain rfl := Except.ok.inj same
      rw [committed]
      exact full

theorem runLayers_full {account : Url} :
    Full (runLayers v backend account j).1 ↔ ∃ p,
      ((findInclusion v backend account).run j).1 = .ok p ∧ p.Holds v.config.algorithm ∧
      Full (runCommitted v backend (afterInclusion v p) p
        ((findInclusion v backend account).run j).2).1 := by
  unfold runLayers
  rw [Journal.bind_apply]
  cases ((findInclusion v backend account).run j).1 with
  | error f =>
    constructor
    · intro full
      obtain ⟨o, same, -, -, signed, -⟩ := full
      change unincluded account f = .ok o at same
      unfold unincluded at same
      split at same
      · cases same
      · obtain rfl := Except.ok.inj same
        cases signed
    · intro h
      obtain ⟨p, found, -⟩ := h
      cases found
  | ok p =>
    dsimp only
    simp only [Except.ok.injEq, exists_eq_left']
    rw [← Inclusion.finding_valid]
    split
    · rename_i valid
      exact ⟨fun full => ⟨valid, full⟩, fun full => full.2⟩
    · rename_i invalid
      exact ⟨fun full => absurd full (not_full_of_unsigned rfl), fun full => absurd full.1 invalid⟩

theorem verifyAccount_verified {now : UInt64} {account : String} :
    (∃ r, (verifyAccount v backend now account j).1 = .ok r ∧ r.verified = true) ↔
      ∃ u, Url.parse account = .ok u ∧ Full (runLayers v backend u j).1 := by
  unfold verifyAccount
  cases Url.parse account with
  | error e =>
    constructor
    · intro h
      obtain ⟨r, same, -⟩ := h
      cases same
    · intro h
      obtain ⟨u, same, -⟩ := h
      cases same
  | ok u =>
    dsimp only
    rw [Journal.bind_apply]
    simp only [Except.ok.injEq, exists_eq_left']
    cases (runLayers v backend u j).1 with
    | error f =>
      constructor
      · intro h
        obtain ⟨r, same, -⟩ := h
        cases same
      · intro h
        obtain ⟨o, same, -⟩ := h
        cases same
    | ok o =>
      constructor
      · intro h
        obtain ⟨r, same, verified⟩ := h
        obtain rfl := Except.ok.inj same
        exact ⟨o, rfl, verified_report.1 verified⟩
      · intro h
        obtain ⟨_, same, full⟩ := h
        obtain rfl := Except.ok.inj same
        exact ⟨_, rfl, verified_report.2 full⟩

end Uncached

section
variable (told : (query : Query) → Except QueryError query.Answer → Prop)

/-- The answer about a block is a block of the height asked for with `root` as application hash. -/
structure Commits (partition : Url) (height : UInt64) (root : Hash) (block : Block) : Prop where
  answer : told (.block partition height) (.ok block)
  height : block.height = height
  appHash : block.appHash = root

/-- The first search that knows the anchor has this one. -/
inductive FirstFound (source authority : Url) (root : Hash) (anchor : Anchor) : Prop
  | intermediate (found : told (.anchor source authority root .intermediate) (.ok anchor))
  | authorityChain {what : String}
      (unknown : told (.anchor source authority root .intermediate) (.error (.notFound what)))
      (found : told (.anchor source authority root .authorityChain) (.ok anchor))

/-- From the block of the home partition that commits `root` to the block that has to be signed. -/
inductive Route (a : Anchoring) (home : Url) (root : Hash) (homeBlock : Block) : Block → Prop
  | own (authority : home = a.authority) : Route a home root homeBlock homeBlock
  | anchored {anchor : Anchor} {block : Block} (other : home ≠ a.authority)
      (first : FirstFound told home a.authority root anchor) (accepts : a.Accepts anchor home root)
      (commits : Commits told a.authority anchor.receipt.localBlock anchor.receipt.anchor block) :
      Route a home root homeBlock block

/-- The last entry of an account's chain, with a receipt of a block of an accepted partition. -/
structure Enters (account : Url) (chain : String) (index : UInt64) (entry : ChainEntry)
    (receipt : Receipt) (record : Block) (declared : String) (home : Url) : Prop where
  head : told (.chainHead account chain) (.ok index)
  last : told (.chainEntry account chain index) (.ok entry)
  given : entry.receipt = some receipt
  nonzero : entry.entryHash ≠ Hash.zero
  start : entry.entryHash = receipt.start
  source : told (.block account receipt.localBlock) (.ok record)
  declares : record.sourcePartition = some declared
  accepted : Partition.accepted declared = true
  parses : Url.parse declared = .ok home

/-- A commit that makes an authority block final under the validators of its height. -/
structure Certified (authority : Url) (block : Block) (commit : Commit) (f : Finality) : Prop where
  members : told (.validatorSet authority block.height) (.ok f.validators)
  someMember : f.validators ≠ []
  signatures : told (.commit authority block.height) (.ok commit)
  someSignature : commit.precommits ≠ []
  final : commit.Finalizes block f.validators f

/-- Handovers that lead from a genesis to a validator set at a height. -/
structure Descends (genesis : Genesis) (algorithm : HashAlgorithm) (set : List Validator)
    (height : Int64) (handovers : List Handover) (trace : GenesisTrace) : Prop where
  answer : told (.handovers 0 height) (.ok handovers)
  reaches : genesis.Reaches algorithm set height handovers trace

/-- Answers that prove the last entry of an account's chain back to the genesis. -/
structure Evidence (v : Verifier) (account : Url) where
  index : UInt64
  entry : ChainEntry
  receipt : Receipt
  /-- The block that the receipt names, as recorded under the account. -/
  record : Block
  declared : String
  home : Url
  homeBlock : Block
  signedBlock : Block
  commit : Commit
  finality : Finality
  handovers : List Handover
  trace : GenesisTrace
  enters : Enters told account v.config.chain index entry receipt record declared home
  replays : receipt.Replays v.config.algorithm
  commits : Commits told home receipt.localBlock receipt.anchor homeBlock
  route : Route told v.anchoring home receipt.anchor homeBlock signedBlock
  certified : Certified told v.authority signedBlock commit finality
  descends : Descends told v.genesis v.config.algorithm finality.validators finality.blockHeight
    handovers trace

end

/-- What a backend with fixed answers tells, now and later. -/
def Says (answers : (query : Query) → Except QueryError query.Answer) (query : Query)
    (result : Except QueryError query.Answer) : Prop := answers query = result

theorem Says.gives {answers : (query : Query) → Except QueryError query.Answer} {query : Query}
    {answer : query.Answer} (h : Says answers query (.ok answer)) (j : Journal) :
    (Backend.fixed answers).Gives j query answer (j ++ [⟨query, .ok answer⟩]) := ⟨h, rfl⟩

theorem Commits.known {answers : (query : Query) → Except QueryError query.Answer} {partition : Url}
    {height : UInt64} {root : Hash} {block : Block}
    (h : Commits (Says answers) partition height root block) :
    answers (.block partition block.height) = .ok block := by
  rw [h.height]
  exact h.answer

/-- The chain that an accepted verifier looks at has a name. -/
theorem chain_not_blank (v : Verifier) : Text.isBlankText v.config.chain = false := by
  have accepted := v.accepted
  unfold accept at accepted
  obtain ⟨authority, config, -⟩ := Failure.bind_eq_ok.1 accepted
  unfold Config.accept at config
  obtain ⟨_, -, config⟩ := Failure.bind_eq_ok.1 config
  cases blank : Text.isBlankText v.config.chain with
  | false => rfl
  | true =>
    rw [blank] at config
    cases config

namespace Uncached
variable {v : Verifier} {answers : (query : Query) → Except QueryError query.Answer} {o : Outcome}
  {j : Journal}

theorem verifyState_fixed {partition : Url} {root : Hash} {height : UInt64} {block : Block} :
    (Anchoring.verifyState (.fixed answers) partition root height j).1.2 = some block ↔
      Commits (Says answers) partition height root block := by
  rw [Anchoring.verifyState_eq_some, ← Inquiry.exists_yields]
  simp only [Anchoring.stateCommitment_yields, Backend.gives_fixed]
  constructor
  · intro h
    obtain ⟨_, ⟨answer, -⟩, sameHeight, commits⟩ := h
    exact ⟨answer, sameHeight, commits⟩
  · intro h
    obtain ⟨answer, sameHeight, commits⟩ := h
    exact ⟨_, ⟨answer, rfl⟩, sameHeight, commits⟩

theorem verifyAnchor_fixed {home : Url} {root : Hash} {block : Block} :
    (∃ anchored, (v.anchoring.verifyAnchor (.fixed answers) home root j).1.2 = some anchored ∧
        anchored.authorityBlock = block) ↔
      ∃ anchor, FirstFound (Says answers) home v.authority root anchor ∧
        v.anchoring.Accepts anchor home root ∧
        Commits (Says answers) v.authority anchor.receipt.localBlock
          anchor.receipt.anchor block := by
  simp only [Anchoring.verifyAnchor_eq_some, ← Inquiry.exists_yields]
  constructor
  · intro h
    obtain ⟨⟨anchor, block, search⟩, ⟨_, h⟩, rfl⟩ := h
    obtain ⟨between, found, accepts, answered, sameHeight, commits⟩ := Anchoring.findIn_yields.1 h
    refine ⟨anchor, ?_, accepts, answered.1, sameHeight, commits⟩
    cases found with
    | here found => exact .intermediate found.1
    | later unknown found =>
      cases found with
      | here found => exact .authorityChain unknown found.1
      | later _ found => cases found
  · intro h
    obtain ⟨anchor, first, accepts, commits⟩ := h
    have established {search : AnchorSearch} {between : Journal} :
        v.anchoring.Established (.fixed answers) home root between ⟨anchor, block, search⟩ _ :=
      ⟨accepts, commits.answer.gives _, commits.height, commits.appHash⟩
    cases first with
    | intermediate found =>
      exact ⟨_, ⟨_, Anchoring.findIn_yields.2 ⟨_, .here (found.gives j), established⟩⟩, rfl⟩
    | authorityChain unknown found =>
      exact ⟨_, ⟨_, Anchoring.findIn_yields.2
        ⟨_, .later unknown (.here (found.gives _)), established⟩⟩, rfl⟩

/-- The inclusion that an entry, its receipt and its home partition make up. -/
theorem findInclusion_fixed {account : Url} {p : Inclusion} :
    ((findInclusion v (.fixed answers) account).run j).1 = .ok p ↔
      ∃ index entry receipt record declared home,
        Enters (Says answers) account v.config.chain index entry receipt record declared home ∧
        p = ⟨account, v.config.chain, index, entry.entryHash, receipt, receipt.anchor,
          receipt.localBlock, home.text⟩ := by
  rw [← Inquiry.exists_yields]
  constructor
  · intro h
    obtain ⟨_, h⟩ := h
    obtain ⟨index, _, head, h⟩ := Inquiry.yields_ask_bind.1 h
    obtain ⟨-, entry, record, declared, home, _, last, given, nonzero, start, source, declares,
      accepted, parses, same⟩ := Inclusion.build_yields.1 h
    exact ⟨index, entry, p.receipt, record, declared, home,
      ⟨head.1, last.1, given, nonzero, start, source.1, declares, accepted, parses⟩, same⟩
  · intro h
    obtain ⟨index, entry, receipt, record, declared, home, e, rfl⟩ := h
    exact ⟨_, Inquiry.yields_ask_bind.2 ⟨index, _, ⟨e.head, rfl⟩, Inclusion.build_yields.2
      ⟨v.chain_not_blank, entry, record, declared, home, _, ⟨e.last, rfl⟩, e.given, e.nonzero,
        e.start, ⟨e.source, rfl⟩, e.declares, e.accepted, e.parses, rfl⟩⟩⟩

theorem runSigned_fixed {block : Block} (start : o.signed = false) :
    Full (runSigned v (.fixed answers) o v.authority block j).1 ↔ o.included = true ∧
      ∃ commit f handovers trace, Certified (Says answers) v.authority block commit f ∧
        Descends (Says answers) v.genesis v.config.algorithm f.validators f.blockHeight handovers
          trace := by
  rw [runSigned_full start]
  simp only [verifySignatures_eq_some, ← Inquiry.exists_yields, Commit.fetch_yields,
    traceGenesis_yields]
  constructor
  · intro h
    obtain ⟨included, f, ⟨commit, ⟨_, ⟨_, members, signatures⟩, someMember, someSignature⟩, final⟩,
      trace, _, handovers, answer, reaches⟩ := h
    exact ⟨included, commit, f, handovers, trace,
      ⟨members.1, someMember, signatures.1, someSignature, final⟩, answer.1, reaches⟩
  · intro h
    obtain ⟨included, commit, f, handovers, trace, c, d⟩ := h
    exact ⟨included, f, ⟨commit, ⟨_, ⟨_, ⟨c.members, rfl⟩, ⟨c.signatures, rfl⟩⟩, c.someMember,
      c.someSignature⟩, c.final⟩, trace, _, handovers, ⟨d.answer, rfl⟩, d.reaches⟩

theorem runAnchored_fixed {home : Url} {root : Hash} {homeBlock : Block}
    (start : o.signed = false) :
    Full (runAnchored v (.fixed answers) o home root homeBlock j).1 ↔ o.included = true ∧
      ∃ block commit f handovers trace, Route (Says answers) v.anchoring home root homeBlock block ∧
        Certified (Says answers) v.authority block commit f ∧
        Descends (Says answers) v.genesis v.config.algorithm f.validators f.blockHeight handovers
          trace := by
  rw [runAnchored_full start]
  constructor
  · rintro (⟨own, full⟩ | ⟨other, anchored, found, full⟩)
    · rw [own, runSigned_fixed (by exact start)] at full
      obtain ⟨included, commit, f, handovers, trace, certified, descends⟩ := full
      exact ⟨included, homeBlock, commit, f, handovers, trace, .own own, certified, descends⟩
    · obtain ⟨anchor, first, accepts, commits⟩ := verifyAnchor_fixed.1 ⟨anchored, found, rfl⟩
      obtain ⟨included, commit, f, handovers, trace, certified, descends⟩ :=
        (runSigned_fixed (by exact start)).1 full
      exact ⟨included, _, commit, f, handovers, trace,
        .anchored other first accepts commits, certified, descends⟩
  · intro h
    obtain ⟨included, block, commit, f, handovers, trace, route, certified, descends⟩ := h
    cases route with
    | own own =>
      refine .inl ⟨own, ?_⟩
      rw [show home = v.authority from own]
      exact (runSigned_fixed (by exact start)).2
        ⟨included, commit, f, handovers, trace, certified, descends⟩
    | anchored other first accepts commits =>
      obtain ⟨anchored, found, rfl⟩ := (verifyAnchor_fixed (j := j)).2 ⟨_, first, accepts, commits⟩
      exact .inr ⟨other, anchored, found, (runSigned_fixed (by exact start)).2
        ⟨included, commit, f, handovers, trace, certified, descends⟩⟩

theorem runLayers_fixed {account : Url} :
    Full (runLayers v (.fixed answers) account j).1 ↔
      Nonempty (Evidence (Says answers) v account) := by
  rw [runLayers_full]
  constructor
  · intro h
    obtain ⟨p, found, holds, full⟩ := h
    obtain ⟨index, entry, receipt, record, declared, home, enters, rfl⟩ :=
      findInclusion_fixed.1 found
    obtain ⟨url, homeBlock, parsed, committed, full⟩ := (runCommitted_full rfl).1 full
    obtain rfl := Except.ok.inj ((Url.parse_text home).symm.trans parsed)
    obtain ⟨-, block, commit, f, handovers, trace, route, certified, descends⟩ :=
      (runAnchored_fixed rfl).1 full
    exact ⟨⟨index, entry, receipt, record, declared, home, homeBlock, block, commit, f, handovers,
      trace, enters, holds.replays, verifyState_fixed.1 committed, route, certified, descends⟩⟩
  · intro h
    obtain ⟨e⟩ := h
    have holds : Inclusion.Holds v.config.algorithm ⟨account, v.config.chain, e.index,
        e.entry.entryHash, e.receipt, e.receipt.anchor, e.receipt.localBlock, e.home.text⟩ :=
      ⟨e.enters.start, rfl, rfl, Partition.accepted_text e.enters.accepted e.enters.parses,
        e.replays⟩
    exact ⟨_, findInclusion_fixed.2 ⟨_, _, _, _, _, _, e.enters, rfl⟩, holds,
      (runCommitted_full rfl).2 ⟨e.home, e.homeBlock, Url.parse_text e.home,
        verifyState_fixed.2 e.commits, (runAnchored_fixed rfl).2 ⟨Inclusion.finding_valid.2 holds,
          e.signedBlock, e.commit, e.finality, e.handovers, e.trace, e.route, e.certified,
          e.descends⟩⟩⟩

end Uncached

/-- An account is verified from scratch if and only if its text is a URL and the backend's answers
are evidence for it. -/
theorem verifyAccount_verified_iff (v : Verifier)
    (answers : (query : Query) → Except QueryError query.Answer) (now : UInt64)
    (settings : CacheConfig) (j : Journal) (account : String) :
    (∃ report, (v.verifyAccount (.fixed answers) now account ⟨.empty settings, j⟩).1 = .ok report ∧
        report.verified = true) ↔
      ∃ u, Url.parse account = .ok u ∧ Nonempty (Evidence (Says answers) v u) := by
  have cold := verifyAccount_agrees v (.fixed answers) now account ⟨.empty settings, j⟩
    (Cache.holds_empty settings)
  rw [cold.1, Uncached.verifyAccount_verified]
  simp only [Uncached.runLayers_fixed]

end LightClient.Verifier
