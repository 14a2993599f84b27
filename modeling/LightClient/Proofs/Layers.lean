import LightClient.Proofs.Descent
import LightClient.Proofs.Quorum
import LightClient.Proofs.Url
import LightClient.Verifier

/-!
# What the layers accept

For each layer, everything that has to hold for it to succeed and nothing else: what the backend has
to answer, in which order, and what the answers have to satisfy.
-/
namespace LightClient

namespace Receipt

/-- The path is short enough and leads from the start to the anchor. -/
structure Replays (algorithm : HashAlgorithm) (r : Receipt) : Prop where
  short : r.steps.length ≤ maxSteps
  reaches : r.root algorithm = r.anchor

theorem verify_eq_ok {algorithm : HashAlgorithm} {r : Receipt} :
    r.verify algorithm = .ok () ↔ r.Replays algorithm := by
  unfold verify isIntact
  by_cases short : r.steps.length ≤ maxSteps
  · rw [if_neg (Nat.not_lt.2 short)]
    by_cases reaches : r.root algorithm = r.anchor
    · simpa [reaches] using ⟨short, reaches⟩
    · simpa [reaches] using fun h => reaches (Replays.reaches h)
  · rw [if_pos (Nat.lt_of_not_le short)]
    simpa using fun h => short (Replays.short h)

theorem isIntact_eq_true {algorithm : HashAlgorithm} {r : Receipt} :
    r.isIntact algorithm = .ok true ↔ r.Replays algorithm := by
  rw [← verify_eq_ok, verify]
  split <;> simp [*]

end Receipt

namespace Inclusion

/-- A consistent inclusion whose receipt replays. -/
structure Holds (algorithm : HashAlgorithm) (p : Inclusion) : Prop where
  leaf : p.leaf = p.receipt.start
  anchor : p.anchor = p.receipt.anchor
  localBlock : p.localBlock = p.receipt.localBlock
  accepted : Partition.accepted p.sourcePartition = true
  replays : p.receipt.Replays algorithm

theorem checkConsistency_eq_ok {p : Inclusion} :
    p.checkConsistency = .ok () ↔ p.leaf = p.receipt.start ∧ p.anchor = p.receipt.anchor ∧
      p.localBlock = p.receipt.localBlock ∧ Partition.accepted p.sourcePartition = true := by
  unfold checkConsistency
  by_cases leaf : p.leaf = p.receipt.start
  · rw [if_neg (fun other => other leaf)]
    by_cases anchor : p.anchor = p.receipt.anchor
    · rw [if_neg (fun other => other anchor)]
      by_cases localBlock : p.localBlock = p.receipt.localBlock
      · rw [if_neg (fun other => other localBlock)]
        by_cases accepted : Partition.accepted p.sourcePartition = true
        · rw [if_neg (by simp [Partition.not_blank_of_accepted accepted]), if_pos accepted]
          exact ⟨fun _ => ⟨leaf, anchor, localBlock, accepted⟩, fun _ => rfl⟩
        · split <;> simp [accepted]
      · simp [localBlock]
    · simp [anchor]
  · simp [leaf]

theorem check_eq_ok {algorithm : HashAlgorithm} {p : Inclusion} :
    p.check algorithm = .ok () ↔ p.Holds algorithm := by
  unfold check
  rw [Failure.check_bind_eq_ok, checkConsistency_eq_ok, Failure.inContext_eq_ok,
    Receipt.verify_eq_ok]
  constructor
  · intro h
    obtain ⟨⟨leaf, anchor, localBlock, accepted⟩, replays⟩ := h
    exact ⟨leaf, anchor, localBlock, accepted, replays⟩
  · intro h
    obtain ⟨leaf, anchor, localBlock, accepted, replays⟩ := h
    exact ⟨⟨leaf, anchor, localBlock, accepted⟩, replays⟩

theorem finding_valid {algorithm : HashAlgorithm} {p : Inclusion} :
    (p.finding algorithm).valid = true ↔ p.Holds algorithm := by
  rw [← check_eq_ok]
  unfold finding
  split
  · rename_i passed
    exact ⟨fun _ => passed, fun _ => rfl⟩
  · rename_i f failed
    simp [failed, Finding.failed, Finding.withDetail]

theorem checkChainName_eq_ok {chain : String} :
    checkChainName chain = .ok () ↔ Text.isBlankText chain = false := by
  unfold checkChainName
  cases Text.isBlankText chain <;> simp

theorem entryReceipt_eq_ok {scope : Url} {chain : String} {index : UInt64} {entry : ChainEntry}
    {receipt : Receipt} : entryReceipt scope chain index entry = .ok receipt ↔
      entry.receipt = some receipt ∧ entry.entryHash ≠ Hash.zero := by
  unfold entryReceipt
  cases entry.receipt with
  | none => simp
  | some other =>
    by_cases zero : entry.entryHash = Hash.zero <;> simp [Hash.isZero, zero]

theorem resolvePartition_eq_ok {height : UInt64} {declared : Option String} {home : Url} :
    resolvePartition height declared = .ok home ↔
      ∃ text, declared = some text ∧ Partition.accepted text = true ∧
      Url.parse text = .ok home := by
  unfold resolvePartition
  cases declared with
  | none => simp
  | some text =>
    by_cases accepted : Partition.accepted text = true
    · dsimp only
      rw [if_pos ⟨Partition.not_blank_of_accepted accepted, accepted⟩]
      cases parsed : Url.parse text <;> simp [accepted, parsed]
    · simp [accepted]

/-- What a backend has to answer for an inclusion to be built, between two journals. -/
structure Built (backend : Backend) (scope : Url) (chain : String) (index : UInt64) (j : Journal)
    (p : Inclusion) (j' : Journal) : Prop where
  named : Text.isBlankText chain = false
  answered : ∃ entry record text home, ∃ between : Journal,
    backend.Gives j (.chainEntry scope chain index) entry between ∧
    entry.receipt = some p.receipt ∧ entry.entryHash ≠ Hash.zero ∧
    entry.entryHash = p.receipt.start ∧
    backend.Gives between (.block scope p.receipt.localBlock) record j' ∧
    record.sourcePartition = some text ∧ Partition.accepted text = true ∧
    Url.parse text = .ok home ∧
    p = ⟨scope, chain, index, entry.entryHash, p.receipt, p.receipt.anchor, p.receipt.localBlock,
      home.text⟩

theorem build_yields {backend : Backend} {scope : Url} {chain : String} {index : UInt64}
    {j j' : Journal} {p : Inclusion} :
    (build backend scope chain index).Yields j p j' ↔ Built backend scope chain index j p j' := by
  constructor
  · intro h
    obtain ⟨named, h⟩ := Inquiry.yields_check_bind.1 h
    obtain ⟨entry, between, asked, h⟩ := Inquiry.yields_ask_bind.1 h
    obtain ⟨receipt, found, h⟩ := Inquiry.yields_lift_bind.1 h
    obtain ⟨record, j₂, resolved, h⟩ := Inquiry.yields_ask_bind.1 h
    obtain ⟨home, partition, h⟩ := Inquiry.yields_lift_bind.1 h
    obtain ⟨consistent, h⟩ := Inquiry.yields_check_bind.1 h
    obtain ⟨rfl, rfl⟩ := Inquiry.yields_pure.1 h
    obtain ⟨found, nonzero⟩ := entryReceipt_eq_ok.1 found
    obtain ⟨text, declared, accepted, parsed⟩ := resolvePartition_eq_ok.1 partition
    exact ⟨checkChainName_eq_ok.1 named, entry, record, text, home, between, asked, found, nonzero,
      (checkConsistency_eq_ok.1 consistent).1, resolved, declared, accepted, parsed, rfl⟩
  · intro h
    obtain ⟨named, entry, record, text, home, between, asked, found, nonzero, start,
        resolved, declared,
      accepted, parsed, same⟩ := h
    refine Inquiry.yields_check_bind.2 ⟨checkChainName_eq_ok.2 named,
      Inquiry.yields_ask_bind.2 ⟨entry, between, asked,
      Inquiry.yields_lift_bind.2 ⟨p.receipt, entryReceipt_eq_ok.2 ⟨found, nonzero⟩,
      Inquiry.yields_ask_bind.2 ⟨record, j', resolved,
      Inquiry.yields_lift_bind.2
        ⟨home, resolvePartition_eq_ok.2 ⟨text, declared, accepted, parsed⟩,
      Inquiry.yields_check_bind.2 ⟨checkConsistency_eq_ok.2 ?_, ?_⟩⟩⟩⟩⟩⟩
    · exact ⟨start, rfl, rfl, Partition.accepted_text accepted parsed⟩
    · exact Inquiry.yields_pure.2 ⟨same, rfl⟩

/-- An inclusion is about the position that was asked for. -/
theorem position_of_build {backend : Backend} {scope : Url} {chain : String} {index : UInt64}
    {j : Journal} {p : Inclusion} (h : ((build backend scope chain index).run j).1 = .ok p) :
    p.scope = scope ∧ p.chain = chain ∧ p.index = index := by
  obtain ⟨_, built⟩ := Inquiry.exists_yields.2 h
  obtain ⟨-, _, _, _, _, _, -, -, -, -, -, -, -, -, same⟩ := build_yields.1 built
  rw [same]
  exact ⟨rfl, rfl, rfl⟩

theorem build_asks (backend : Backend) (scope : Url) (chain : String) (index : UInt64) :
    Asks backend (build backend scope chain index).run :=
  .check_bind fun _ => .ask_bind fun _ => .check_bind fun _ => .ask_bind fun _ =>
    .check_bind fun _ => .check_bind fun _ => .pure _

end Inclusion

namespace Anchoring
variable {a : Anchoring} {backend : Backend} {source : Url} {root : Hash} {j j' : Journal}

theorem checkCommits_eq_ok {partition : Url} {height : UInt64} {block : Block} :
    checkCommits partition root height block = .ok () ↔
      block.height = height ∧ block.appHash = root := by
  unfold checkCommits
  by_cases sameHeight : block.height = height
  · by_cases commits : block.appHash = root <;> simp [sameHeight, commits]
  · simp [sameHeight]

theorem stateCommitment_yields {partition : Url} {height : UInt64} {block : Block} :
    (stateCommitment backend partition root height).Yields j block j' ↔
      backend.Gives j (.block partition height) block j' ∧ block.height = height ∧
        block.appHash = root := by
  constructor
  · intro h
    obtain ⟨answer, j₁, asked, h⟩ := Inquiry.yields_ask_bind.1 h
    obtain ⟨commits, h⟩ := Inquiry.yields_check_bind.1 h
    obtain ⟨rfl, rfl⟩ := Inquiry.yields_pure.1 h
    exact ⟨asked, checkCommits_eq_ok.1 commits⟩
  · intro h
    obtain ⟨asked, commits⟩ := h
    exact Inquiry.yields_ask_bind.2 ⟨block, j', asked,
      Inquiry.yields_check_bind.2 ⟨checkCommits_eq_ok.2 commits, Inquiry.yields_pure.2 ⟨rfl, rfl⟩⟩⟩

theorem stateCommitment_asks (partition : Url) (height : UInt64) :
    Asks backend (stateCommitment backend partition root height).run :=
  .ask_bind fun _ => .check_bind fun _ => .pure _

theorem verifyState_asks (partition : Url) (height : UInt64) :
    Asks backend (verifyState backend partition root height) :=
  (stateCommitment_asks partition height).map _

/-- The second layer has a block exactly if the block commits the root. -/
theorem verifyState_eq_some {partition : Url} {height : UInt64} {block : Block} :
    (verifyState backend partition root height j).1.2 = some block ↔
      ((stateCommitment backend partition root height).run j).1 = .ok block := by
  change (stateFinding partition height ((stateCommitment backend partition root height).run j).1).2
    = _ ↔ _
  cases ((stateCommitment backend partition root height).run j).1 <;> simp [stateFinding]

theorem spells_eq_true {text : String} {url : Url} :
    spells text url = true ↔ Url.parse text = .ok url := by
  unfold spells
  cases Url.parse text <;> simp

/-- An anchor record of a root in the authority partition. -/
structure Accepts (a : Anchoring) (anchor : Anchor) (source : Url) (root : Hash) : Prop where
  anchored : anchor.anchored = root
  start : anchor.receipt.start = root
  source : Url.parse anchor.sourcePartition = .ok source
  target : Url.parse anchor.targetPartition = .ok a.authority
  replays : anchor.receipt.Replays a.algorithm

theorem checkAnchor_eq_ok {anchor : Anchor} :
    a.checkAnchor anchor source root = .ok () ↔ a.Accepts anchor source root := by
  unfold checkAnchor
  dsimp only
  by_cases anchored : anchor.anchored = root
  · rw [if_neg (fun other => other anchored)]
    by_cases start : anchor.receipt.start = root
    · rw [if_neg (fun other => other start)]
      by_cases spelled : spells anchor.sourcePartition source = true
      · rw [if_neg (by simp [spelled])]
        by_cases targeted : spells anchor.targetPartition a.authority = true
        · rw [if_neg (by simp [targeted]), Failure.inContext_eq_ok, Receipt.verify_eq_ok]
          exact ⟨fun replays => ⟨anchored, start, spells_eq_true.1 spelled,
            spells_eq_true.1 targeted, replays⟩, Accepts.replays⟩
        · rw [if_pos (by simpa using targeted)]
          simpa using fun h => targeted (spells_eq_true.2 (Accepts.target h))
      · rw [if_pos (by simpa using spelled)]
        simpa using fun h => spelled (spells_eq_true.2 (Accepts.source h))
    · rw [if_pos start]
      simpa using fun h => start (Accepts.start h)
  · rw [if_pos anchored]
    simpa using fun h => anchored (Accepts.anchored h)

/-- An accepted anchor, and the authority block that commits what its receipt leads to. -/
structure Established (a : Anchoring) (backend : Backend) (source : Url) (root : Hash) (j : Journal)
    (anchored : AnchoredRoot) (j' : Journal) : Prop where
  accepts : a.Accepts anchored.anchor source root
  block : backend.Gives j (.block a.authority anchored.anchor.receipt.localBlock)
    anchored.authorityBlock j'
  height : anchored.authorityBlock.height = anchored.anchor.receipt.localBlock
  commits : anchored.authorityBlock.appHash = anchored.anchor.receipt.anchor

theorem establish_yields {search : AnchorSearch} {anchor : Anchor} {anchored : AnchoredRoot} :
    (a.establish backend source root search anchor).Yields j anchored j' ↔
      anchored.anchor = anchor ∧ anchored.search = search ∧
        a.Established backend source root j anchored j' := by
  constructor
  · intro h
    obtain ⟨passed, h⟩ := Inquiry.yields_check_bind.1 h
    obtain ⟨block, j₁, committed, h⟩ := Inquiry.yields_bind.1 h
    obtain ⟨rfl, rfl⟩ := Inquiry.yields_pure.1 h
    obtain ⟨asked, height, commits⟩ :=
      stateCommitment_yields.1 (Inquiry.yields_inContext.1 committed)
    exact ⟨rfl, rfl, checkAnchor_eq_ok.1 passed, asked, height, commits⟩
  · intro h
    obtain ⟨rfl, rfl, accepts, asked, height, commits⟩ := h
    exact Inquiry.yields_check_bind.2 ⟨checkAnchor_eq_ok.2 accepts, Inquiry.yields_bind.2
      ⟨anchored.authorityBlock, j',
        Inquiry.yields_inContext.2 (stateCommitment_yields.2 ⟨asked, height, commits⟩),
        Inquiry.yields_pure.2 ⟨rfl, rfl⟩⟩⟩

/-- Searches one after the other until one has the anchor; those before it know of none. -/
inductive Searched (a : Anchoring) (backend : Backend) (source : Url) (root : Hash) :
    List AnchorSearch → Journal → AnchorSearch → Anchor → Journal → Prop
  | here {search : AnchorSearch} {others : List AnchorSearch} {j j' : Journal} {anchor : Anchor}
      (found : backend.Gives j (.anchor source a.authority root search) anchor j') :
      Searched a backend source root (search :: others) j search anchor j'
  | later {first search : AnchorSearch} {others : List AnchorSearch} {j j' : Journal}
      {anchor : Anchor} {what : String}
      (unknown : backend j (.anchor source a.authority root first) = .error (.notFound what))
      (found : Searched a backend source root others
        (j ++ [⟨.anchor source a.authority root first, .error (.notFound what)⟩])
          search anchor j') :
      Searched a backend source root (first :: others) j search anchor j'

theorem findIn_yields {searches : List AnchorSearch} {anchored : AnchoredRoot} :
    (a.findIn backend source root searches).Yields j anchored j' ↔
      ∃ between, a.Searched backend source root searches j anchored.search anchored.anchor between ∧
        a.Established backend source root between anchored j' := by
  induction searches generalizing j with
  | nil =>
    constructor
    · intro h
      cases (Prod.mk.inj h).1
    · intro h
      obtain ⟨_, found, -⟩ := h
      cases found
  | cons search others ih =>
    unfold findIn
    rw [Inquiry.yields_bind]
    have exchanged {answer} {j₁ : Journal} : Inquiry.Yields
        (ExceptT.lift (backend.exchange (.anchor source a.authority root search))) j answer j₁ ↔
        answer = backend j (.anchor source a.authority root search) ∧
          j₁ = j ++ [⟨_, backend j (.anchor source a.authority root search)⟩] := by
      change (Except.ok _, _) = _ ↔ _
      simp [eq_comm]
    constructor
    · intro h
      obtain ⟨answer, j₁, asked, h⟩ := h
      obtain ⟨rfl, rfl⟩ := exchanged.1 asked
      cases answered : backend j (.anchor source a.authority root search) with
      | ok anchor =>
        rw [answered] at h
        obtain ⟨rfl, rfl, established⟩ := establish_yields.1 h
        exact ⟨_, .here ⟨answered, rfl⟩, established⟩
      | error cause =>
        rw [answered] at h
        cases cause with
        | notFound what =>
          obtain ⟨between, found, established⟩ := ih.1 h
          exact ⟨between, .later answered found, established⟩
        | unavailable reason => cases (Prod.mk.inj h).1
    · intro h
      obtain ⟨between, found, established⟩ := h
      refine ⟨_, _, exchanged.2 ⟨rfl, rfl⟩, ?_⟩
      cases found with
      | here found =>
        obtain ⟨answered, rfl⟩ := found
        rw [answered]
        exact establish_yields.2 ⟨rfl, rfl, established⟩
      | later unknown found =>
        rw [unknown]
        exact ih.2 ⟨between, found, established⟩

theorem findIn_asks (searches : List AnchorSearch) :
    Asks backend (a.findIn backend source root searches).run := by
  induction searches with
  | nil => exact .pure (Except.error _)
  | cons search others ih =>
    refine .inquiry_bind ((Asks.exchange _).map Except.ok) fun answer => ?_
    cases answer with
    | ok anchor =>
      exact .check_bind fun _ => .inquiry_bind ((stateCommitment_asks _ _).map _) fun _ => .pure _
    | error cause =>
      cases cause with
      | notFound what => exact ih
      | unavailable reason => exact .pure (Except.error _)

theorem verifyAnchor_asks : Asks backend (a.verifyAnchor backend source root) :=
  (findIn_asks _).map _

theorem verifyAnchor_eq_some {anchored : AnchoredRoot} :
    (a.verifyAnchor backend source root j).1.2 = some anchored ↔
      ((a.find backend source root).run j).1 = .ok anchored := by
  change (a.anchorFinding source root ((a.find backend source root).run j).1).2 = _ ↔ _
  cases ((a.find backend source root).run j).1 <;> simp [anchorFinding]

end Anchoring

namespace Commit
variable {backend : Backend} {partition : Url} {j j' : Journal}

theorem requireSome_eq_ok {α : Type} {what : String} {records : List α} :
    requireSome what records = .ok () ↔ records ≠ [] := by
  cases records <;> simp [requireSome]

/-- A validator set and a commit of which neither is empty, asked for one after the other. -/
structure Fetched (backend : Backend) (partition : Url) (height : UInt64) (j : Journal)
    (validators : List Validator) (commit : Commit) (j' : Journal) : Prop where
  answered : ∃ between, backend.Gives j (.validatorSet partition height) validators between ∧
    backend.Gives between (.commit partition height) commit j'
  members : validators ≠ []
  precommits : commit.precommits ≠ []

theorem fetch_yields {height : UInt64} {validators : List Validator} {commit : Commit} :
    (fetch backend partition height).Yields j (validators, commit) j' ↔
      Fetched backend partition height j validators commit j' := by
  constructor
  · intro h
    obtain ⟨set, between, first, h⟩ := Inquiry.yields_ask_bind.1 h
    obtain ⟨members, h⟩ := Inquiry.yields_check_bind.1 h
    obtain ⟨record, _, second, h⟩ := Inquiry.yields_ask_bind.1 h
    obtain ⟨precommits, h⟩ := Inquiry.yields_check_bind.1 h
    obtain ⟨same, rfl⟩ := Inquiry.yields_pure.1 h
    obtain ⟨rfl, rfl⟩ := Prod.mk.inj same
    exact ⟨⟨between, first, second⟩, requireSome_eq_ok.1 members, requireSome_eq_ok.1 precommits⟩
  · intro h
    obtain ⟨⟨between, first, second⟩, members, precommits⟩ := h
    exact Inquiry.yields_ask_bind.2 ⟨validators, between, first,
      Inquiry.yields_check_bind.2 ⟨requireSome_eq_ok.2 members,
      Inquiry.yields_ask_bind.2 ⟨commit, j', second,
      Inquiry.yields_check_bind.2 ⟨requireSome_eq_ok.2 precommits,
      Inquiry.yields_pure.2 ⟨rfl, rfl⟩⟩⟩⟩⟩

theorem verifyFetched_asks (block : Block) : Asks backend (verifyFetched backend partition block) :=
  Asks.map (.ask_bind fun _ => .check_bind fun _ => .ask_bind fun _ => .check_bind fun _ => .pure _)
    _

/-- The layer of block signatures has a record exactly if what was fetched makes the block final. -/
theorem verifyFetched_eq_some {block : Block} {f : Finality} :
    (verifyFetched backend partition block j).1.2 = some f ↔
      ∃ commit, ((fetch backend partition block.height).run j).1 = .ok (f.validators, commit) ∧
        commit.Finalizes block f.validators f := by
  change (fetchedFinding partition block ((fetch backend partition block.height).run j).1).2 = _ ↔ _
  cases ((fetch backend partition block.height).run j).1 with
  | error cause => simp [fetchedFinding]
  | ok data =>
    obtain ⟨validators, commit⟩ := data
    change (verify block commit validators).2 = some f ↔ _
    rw [verify_eq_some]
    constructor
    · intro final
      obtain rfl := final.members
      exact ⟨commit, rfl, final⟩
    · intro h
      obtain ⟨other, same, final⟩ := h
      obtain ⟨rfl, rfl⟩ := Prod.mk.inj (Except.ok.inj same)
      exact final

end Commit

namespace Verifier
variable {v : Verifier} {backend : Backend} {j j' : Journal}

/-- Only the roots of the authority itself need no anchor. -/
theorem requiresAnchor_iff {home : Url} :
    v.anchoring.requiresAnchor home = true ↔ home ≠ v.authority := decide_eq_true_iff

theorem traceGenesis_yields {validators : List Validator} {height : Int64} {trace : GenesisTrace} :
    (v.traceGenesis backend validators height).Yields j trace j' ↔
      ∃ handovers, backend.Gives j (.handovers 0 height) handovers j' ∧
        v.genesis.Reaches v.config.algorithm validators height handovers trace := by
  constructor
  · intro h
    obtain ⟨handovers, j₁, asked, h⟩ := Inquiry.yields_ask_bind.1 h
    obtain ⟨reached, rfl⟩ := Inquiry.yields_lift.1 h
    exact ⟨handovers, asked, Genesis.check_eq_ok.1 reached⟩
  · intro h
    obtain ⟨handovers, asked, reached⟩ := h
    exact Inquiry.yields_ask_bind.2
      ⟨handovers, j', asked, Inquiry.yields_lift.2 ⟨Genesis.check_eq_ok.2 reached, rfl⟩⟩

theorem traceGenesis_asks (validators : List Validator) (height : Int64) :
    Asks backend (v.traceGenesis backend validators height).run := .ask_bind fun _ => .check _

end Verifier

end LightClient
