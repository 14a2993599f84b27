import LightClient.Proofs.Causes
import LightClient.Proofs.Soundness
import LightClient.Proofs.Transparency

/-!
# The accounts of the authority itself

Which partition is the authority is a setting, whereas entries are taken only from partitions whose
names have one of two formats. If the authority has such a name, the accounts that it holds itself
are verified without an anchor, however their block records spell its name. If it has another name,
the first layer turns its accounts away.
-/
namespace LightClient

variable {α β : Type}

namespace Failure

/-- The failure is that a partition was not found, or not accepted. -/
def BlamesPartition (f : Failure) : Prop :=
  (∃ height found, f.rootCause = .partitionResolution height found) ∨
    ∃ partition, f.rootCause = .violation (.unacceptedPartition partition)

/-- A result that is no failure of this sort. -/
def SparesPartition (x : Except Failure α) : Prop := ∀ f, x = .error f → ¬ f.BlamesPartition

namespace SparesPartition
variable {x y : Except Failure α}

theorem ok (a : α) : SparesPartition (.ok a) := fun _ same => nomatch same

theorem error {f : Failure} (other : ¬ f.BlamesPartition) :
    SparesPartition (.error f : Except Failure α) := fun _ same => Except.error.inj same ▸ other

theorem ite {c : Prop} [Decidable c] (yes : SparesPartition x) (no : SparesPartition y) :
    SparesPartition (if c then x else y) := by
  split
  · exact yes
  · exact no

theorem bind {g : α → Except Failure β} (first : SparesPartition x)
    (next : ∀ a, SparesPartition (g a)) : SparesPartition (x >>= g) := by
  cases x with
  | error f => exact error (first f rfl)
  | ok a => exact next a

theorem inContext {text : String} (h : SparesPartition x) : SparesPartition (inContext text x) := by
  cases x with
  | error f => exact error (h f rfl)
  | ok a => exact ok a

theorem ofAnswer (text : String) (answer : Except QueryError α) :
    SparesPartition (ofAnswer text answer) := by
  cases answer with
  | error cause => exact error (by simp [BlamesPartition, rootCause])
  | ok a => exact ok a

end SparesPartition

end Failure

namespace Inquiry

/-- An inquiry that never fails in this way. -/
def SparesPartition (m : Inquiry α) : Prop := ∀ j, Failure.SparesPartition (m.run j).1

namespace SparesPartition
variable {m : Inquiry α}

theorem pure (a : α) : SparesPartition (Pure.pure a) := fun _ => .ok a

theorem lift {x : Except Failure α} (h : Failure.SparesPartition x) :
    SparesPartition (liftM x : Inquiry α) := fun _ => h

theorem ask {backend : Backend} {context : String} {query : Query} :
    SparesPartition (backend.ask context query) := fun _ => .ofAnswer _ _

/-- The rest of the inquiry only has to be looked at for what the first step can yield. -/
theorem bind {g : α → Inquiry β} (first : SparesPartition m)
    (next : ∀ a j j', m.Yields j a j' → SparesPartition (g a)) : SparesPartition (m >>= g) := by
  intro j
  have spared := first j
  rw [run_bind_apply]
  cases ran : m.run j with
  | mk result j' =>
    rw [ran] at spared
    cases result with
    | error f => exact .error (spared f rfl)
    | ok a => exact next a j j' ran j'

end SparesPartition

end Inquiry

namespace Receipt

theorem verify_spares (algorithm : HashAlgorithm) (r : Receipt) :
    Failure.SparesPartition (r.verify algorithm) := by
  have long : Failure.SparesPartition (r.isIntact algorithm) :=
    .ite (.error (by simp [Failure.BlamesPartition, Failure.rootCause])) (.ok _)
  unfold verify
  cases intact : r.isIntact algorithm with
  | error f => exact .error (long f intact)
  | ok reaches =>
    cases reaches with
    | true => exact .ok ()
    | false => exact .error (by simp [Failure.BlamesPartition, Failure.rootCause])

end Receipt

namespace Inclusion

theorem checkConsistency_spares {p : Inclusion}
    (accepted : Partition.accepted p.sourcePartition = true) :
    Failure.SparesPartition p.checkConsistency := by
  unfold checkConsistency
  rw [if_pos accepted]
  repeat' apply Failure.SparesPartition.ite
  all_goals first
    | exact .ok _
    | exact .error (by simp [Failure.BlamesPartition, Failure.rootCause])

/-- A proof from an accepted partition is never refused for its partition. -/
theorem check_spares (algorithm : HashAlgorithm) {p : Inclusion}
    (accepted : Partition.accepted p.sourcePartition = true) :
    Failure.SparesPartition (p.check algorithm) :=
  (checkConsistency_spares accepted).bind fun _ => (Receipt.verify_spares _ _).inContext

/-- All blocks that a backend reports under a scope name one partition as their source. -/
def SourcedFrom (backend : Backend) (scope u : Url) : Prop :=
  ∀ j height block, backend j (.block scope height) = .ok block →
    ∃ text, block.sourcePartition = some text ∧ Partition.Names text u

/-- Nor is an entry of which the block names an accepted partition. -/
theorem build_spares {backend : Backend} {scope u : Url} (chain : String) (index : UInt64)
    (format : Partition.accepted u.text = true) (sourced : SourcedFrom backend scope u) :
    (build backend scope chain index).SparesPartition := by
  refine .bind (.lift ?_) fun _ _ _ _ => .bind .ask fun entry _ _ _ => .bind (.lift ?_)
    fun receipt _ _ _ => .bind .ask fun block j _ given => ?_
  · exact .ite (.error (by simp [Failure.BlamesPartition, Failure.rootCause])) (.ok _)
  · unfold entryReceipt
    cases entry.receipt with
    | none => exact .error (by simp [Failure.BlamesPartition, Failure.rootCause])
    | some receipt =>
      exact .ite (.error (by simp [Failure.BlamesPartition, Failure.rootCause])) (.ok _)
  · obtain ⟨text, declares, named⟩ :=
      sourced j receipt.localBlock block (Inquiry.yields_ask.1 given).1
    have resolved : resolvePartition receipt.localBlock block.sourcePartition = .ok u :=
      resolvePartition_eq_ok.2
        ⟨text, declares, (Partition.accepted_iff_of_names named).2 format, named.parses⟩
    rw [resolved]
    exact .bind (.lift (.ok u)) fun partition _ _ found => by
      obtain rfl := Except.ok.inj (Inquiry.yields_lift.1 found).1
      exact .bind (.lift (checkConsistency_spares format)) fun _ _ _ _ => .pure _

end Inclusion

/-- The backend answers a query like this whenever it is asked. -/
def Backend.Always (backend : Backend) (query : Query) (result : Except QueryError query.Answer) :
    Prop := ∀ j, backend j query = result

theorem Backend.Always.gives {backend : Backend} {query : Query} {answer : query.Answer}
    (h : backend.Always query (.ok answer)) (j : Journal) :
    backend.Gives j query answer (j ++ [⟨query, .ok answer⟩]) := ⟨h j, rfl⟩

/-- The exchange is the next one after those that have been added to a journal. -/
theorem Backend.Always.follows {backend : Backend} {query : Query} {answer : query.Answer}
    (h : backend.Always query (.ok answer)) (j log : Journal) :
    backend.Gives (j ++ log) query answer (j ++ (log ++ [⟨query, .ok answer⟩])) :=
  ⟨h _, (List.append_assoc _ _ _).symm⟩

namespace Verifier

/-- Answers that prove the last entry of an account's chain, of which the block declares the
authority in some spelling, back to the genesis. Nothing is said about anchors, nor about what else
may be asked. -/
structure OwnEvidence (backend : Backend) (v : Verifier) (account : Url) where
  index : UInt64
  entry : ChainEntry
  receipt : Receipt
  /-- The block that the receipt names, as recorded under the account. -/
  record : Block
  declared : String
  /-- The same block as recorded under the authority. -/
  block : Block
  commit : Commit
  finality : Finality
  handovers : List Handover
  trace : GenesisTrace
  head : backend.Always (.chainHead account v.config.chain) (.ok index)
  last : backend.Always (.chainEntry account v.config.chain index) (.ok entry)
  given : entry.receipt = some receipt
  nonzero : entry.entryHash ≠ Hash.zero
  start : entry.entryHash = receipt.start
  replays : receipt.Replays v.config.algorithm
  source : backend.Always (.block account receipt.localBlock) (.ok record)
  declares : record.sourcePartition = some declared
  spells : Url.parse declared = .ok v.authority
  commits : Commits backend.Always v.authority receipt.localBlock receipt.anchor block
  certified : Certified backend.Always v.authority block commit finality
  descends : Descends backend.Always v.genesis v.config.algorithm finality.validators
    finality.blockHeight handovers trace

namespace OwnEvidence
variable {backend : Backend} {v : Verifier} {account : Url} (e : OwnEvidence backend v account)

def inclusion : Inclusion :=
  ⟨account, v.config.chain, e.index, e.entry.entryHash, e.receipt, e.receipt.anchor,
    e.receipt.localBlock, v.authority.text⟩

/-- What is asked to find the inclusion. -/
def entryExchanges : Journal :=
  [⟨.chainHead account v.config.chain, .ok e.index⟩,
    ⟨.chainEntry account v.config.chain e.index, .ok e.entry⟩,
    ⟨.block account e.receipt.localBlock, .ok e.record⟩]

/-- What is asked to find the block signed. -/
def signatureExchanges : Journal :=
  [⟨.validatorSet v.authority e.block.height, .ok e.finality.validators⟩,
    ⟨.commit v.authority e.block.height, .ok e.commit⟩,
    ⟨.handovers 0 e.finality.blockHeight, .ok e.handovers⟩]

/-- All that is asked. No anchor is among it. -/
def exchanges : Journal :=
  e.entryExchanges ++ [⟨.block v.authority e.receipt.localBlock, .ok e.block⟩] ++
    e.signatureExchanges

theorem findInclusion_yields (accepted : Partition.accepted e.declared = true) (j : Journal) :
    (Uncached.findInclusion v backend account).Yields j e.inclusion (j ++ e.entryExchanges) :=
  Inquiry.yields_ask_bind.2 ⟨e.index, _, e.head.gives j, Inclusion.build_yields.2
    ⟨v.chain_not_blank, e.entry, e.record, e.declared, v.authority, _, e.last.follows j _, e.given,
      e.nonzero, e.start, e.source.follows j _, e.declares, accepted, e.spells, rfl⟩⟩

theorem inclusion_holds (accepted : Partition.accepted e.declared = true) :
    e.inclusion.Holds v.config.algorithm :=
  ⟨e.start, rfl, rfl, Partition.accepted_text accepted e.spells, e.replays⟩

theorem verifyState_eq (j : Journal) :
    Anchoring.verifyState backend v.authority e.inclusion.anchor e.inclusion.localBlock j =
      (Anchoring.stateFinding v.authority e.receipt.localBlock (.ok e.block),
        j ++ [⟨.block v.authority e.receipt.localBlock, .ok e.block⟩]) := by
  have yields : (Anchoring.stateCommitment backend v.authority e.inclusion.anchor
      e.inclusion.localBlock).Yields j e.block _ := Anchoring.stateCommitment_yields.2
    ⟨e.commits.answer.gives j, e.commits.height, e.commits.appHash⟩
  unfold Anchoring.verifyState
  rw [Journal.bind_apply, show _ = _ from yields]
  rfl

theorem verifySignatures_eq (j : Journal) : ∃ finding,
    Uncached.verifySignatures backend v.authority e.block j = ((finding, some e.finality),
      j ++ [⟨.validatorSet v.authority e.block.height, .ok e.finality.validators⟩,
        ⟨.commit v.authority e.block.height, .ok e.commit⟩]) := by
  have yields := Commit.fetch_yields.2 ⟨⟨_, e.certified.members.gives j,
    e.certified.signatures.follows j _⟩, e.certified.someMember, e.certified.someSignature⟩
  have final := Commit.verify_eq_some.2 e.certified.final
  refine ⟨(Commit.fetchedFinding v.authority e.block (.ok (e.finality.validators, e.commit))).1, ?_⟩
  unfold Uncached.verifySignatures
  rw [HeaderTree.checkAppHash_eq_ok.2 e.certified.final.header]
  unfold Commit.verifyFetched
  dsimp only
  rw [Journal.bind_apply, show _ = _ from yields]
  exact Prod.ext (Prod.ext rfl final) rfl

theorem verifyGenesis_eq (j : Journal) : Uncached.verifyGenesis v backend e.finality j =
    (.ok e.trace.finding, j ++ [⟨.handovers 0 e.finality.blockHeight, .ok e.handovers⟩]) := by
  have yields := traceGenesis_yields.2 ⟨e.handovers, e.descends.answer.gives j, e.descends.reaches⟩
  unfold Uncached.verifyGenesis
  rw [Journal.bind_apply, show _ = _ from yields]
  rfl

/-- What all layers come to. -/
structure Succeeds (o : Outcome) : Prop where
  included : o.included = true
  anchored : o.anchored = true
  signed : o.signed = true
  traced : o.traced = true

theorem runSigned_eq {o : Outcome} (included : o.included = true) (j : Journal) :
    ∃ o', Uncached.runSigned v backend o v.authority e.block j =
      (.ok o', j ++ e.signatureExchanges) ∧ Succeeds o' := by
  obtain ⟨finding, signed⟩ := e.verifySignatures_eq j
  unfold Uncached.runSigned
  rw [Journal.bind_apply, signed]
  dsimp only
  rw [Journal.bind_apply, e.verifyGenesis_eq, List.append_assoc]
  exact ⟨_, rfl, included, rfl, rfl, rfl⟩

/-- From the inclusion on, the layers succeed without a question about an anchor. -/
theorem runCommitted_eq {o : Outcome} (included : o.included = true) (j : Journal) :
    ∃ o', Uncached.runCommitted v backend o e.inclusion j = (.ok o',
      j ++ [⟨.block v.authority e.receipt.localBlock, .ok e.block⟩] ++ e.signatureExchanges) ∧
      Succeeds o' := by
  have free : ¬ v.anchoring.requiresAnchor v.authority = true := fun needs =>
    requiresAnchor_iff.1 needs rfl
  unfold Uncached.runCommitted
  rw [show Url.parse e.inclusion.sourcePartition = .ok v.authority from Url.parse_text _]
  dsimp only
  rw [Journal.bind_apply, e.verifyState_eq]
  unfold Uncached.runAnchored
  dsimp only [Anchoring.stateFinding]
  rw [if_neg free]
  apply e.runSigned_eq
  exact included

theorem runLayers_eq (accepted : Partition.accepted e.declared = true) (j : Journal) :
    ∃ o, Uncached.runLayers v backend account j = (.ok o, j ++ e.exchanges) ∧ Succeeds o := by
  have valid := Inclusion.finding_valid.2 (e.inclusion_holds accepted)
  obtain ⟨o, ran, succeeds⟩ := e.runCommitted_eq
    (show (Uncached.afterInclusion v e.inclusion).included = true from valid)
      (j ++ e.entryExchanges)
  refine ⟨o, ?_, succeeds⟩
  unfold Uncached.runLayers
  rw [Journal.bind_apply, show _ = _ from e.findInclusion_yields accepted j]
  dsimp only
  rw [if_pos valid, ran]
  simp only [exchanges, List.append_assoc]

/-- Without a cache the account is verified, and all that is asked is what is listed. -/
theorem verifyAccount_eq (accepted : Partition.accepted e.declared = true) {text : String}
    (parsed : Url.parse text = .ok account) (now : UInt64) (j : Journal) :
    ∃ r, Uncached.verifyAccount v backend now text j = (.ok r, j ++ e.exchanges) ∧
      r.trustLevel = .full := by
  obtain ⟨o, ran, included, anchored, signed, traced⟩ := e.runLayers_eq accepted j
  refine ⟨report now account o, ?_, assess_eq_full.2 ⟨included, anchored, signed, traced⟩⟩
  unfold Uncached.verifyAccount
  rw [parsed]
  dsimp only
  rw [Journal.bind_apply, ran]
  rfl

end OwnEvidence

/-- Let the name of the authority have an accepted format. Then no entry of which the block names
the authority, and no proof that names it, is refused for its partition. And if a backend has all
the other evidence for an account of the authority, the account is verified in full, with an empty
cache as well as with one that the verifier has used before, and no anchor is asked for. -/
theorem own_accounts_verified (v : Verifier) (format : Partition.accepted v.authority.text = true) :
    (∀ (backend : Backend) (scope : Url), Inclusion.SourcedFrom backend scope v.authority →
      ∀ chain index, (Inclusion.build backend scope chain index).SparesPartition) ∧
    (∀ p : Inclusion, Partition.Names p.sourcePartition v.authority →
      Failure.SparesPartition (p.check v.config.algorithm)) ∧
    (∀ (backend : Backend) (text : String) (account : Url) (e : OwnEvidence backend v account),
      Url.parse text = .ok account → Partition.Names e.declared v.authority →
      ∀ (settings : CacheConfig) (now : UInt64) (j : Journal), ∃ r,
        (v.verifyAccount backend now text ⟨.empty settings, j⟩).1 = .ok r ∧ r.trustLevel = .full ∧
        (v.verifyAccount backend now text ⟨.empty settings, j⟩).2.journal = j ++ e.exchanges) ∧
    (∀ (answers : (query : Query) → Except QueryError query.Answer) (text : String) (account : Url)
      (e : OwnEvidence (.fixed answers) v account), Url.parse text = .ok account →
      Partition.Names e.declared v.authority → ∀ (settings : CacheConfig) (first : UInt64)
      (actions : List (Action Unit)),
        let caller : Caller := ⟨v, .fixed answers⟩
        let used := (Session.start settings first).run (fun _ => caller) actions
        ∃ r asked, (used.verify caller text).1 = .ok r ∧ r.trustLevel = .full ∧
          (used.verify caller text).2.state.journal = used.state.journal ++ asked ∧
          asked.Sublist e.exchanges) := by
  refine ⟨fun _ _ sourced chain index => Inclusion.build_spares chain index format sourced, ?_, ?_,
    ?_⟩
  · intro p named
    exact Inclusion.check_spares _ ((Partition.accepted_iff_of_names named).2 format)
  · intro backend text account e parsed named settings now j
    have accepted := (Partition.accepted_iff_of_names named).2 format
    obtain ⟨r, ran, full⟩ := e.verifyAccount_eq accepted parsed now j
    obtain ⟨result, journal, -⟩ := verifyAccount_agrees v backend now text ⟨.empty settings, j⟩
      (Cache.holds_empty settings)
    rw [ran] at result journal
    exact ⟨r, result, full, journal⟩
  · intro answers text account e parsed named settings first actions caller used
    have accepted := (Partition.accepted_iff_of_names named).2 format
    obtain ⟨r, ran, full⟩ := e.verifyAccount_eq accepted parsed used.now []
    obtain ⟨same, -, asked, grown, fewer⟩ := verifyAccount_follows used.now text used.now used.state
      (Session.run_faithful v answers settings first actions)
    rw [ran] at same fewer
    rw [List.nil_append] at fewer
    generalize returned : (v.verifyAccount (.fixed answers) used.now text used.state).1 =
      result at same
    cases same with
    | ok alike => exact ⟨_, asked, returned, alike.trustLevel.trans full, grown, fewer⟩

end Verifier

/-- No check of a commit looks at the source that the block names. -/
theorem Commit.Finalizes.withSource {block : Block} {commit : Commit} {validators : List Validator}
    {f : Finality} (h : Finalizes block commit validators f) (source : Option String) :
    Finalizes { block with sourcePartition := source } commit validators f :=
  ⟨h.sameHeight, h.sameHash, h.header, h.bounded, h.quorum, h.blockHeight, h.blockHash, h.chainId,
    h.round, h.members, h.precommits, h.totalPower, h.signedPower⟩

namespace Session.Sample
open Verifier

theorem normal_foreign : Url.Normal "root.acme".toList "".toList := by
  refine ⟨by decide, by decide, by decide, fun c hc => ?_, by decide, by decide⟩
  have clean : ("root.acme".toList ++ "".toList).all (fun c => !Text.isBlank c) = true := by decide
  simpa using List.all_eq_true.1 clean c hc

/-- A partition whose name is of neither format. -/
def foreign : Url := ⟨"root.acme", "", normal_foreign⟩

/-- A verifier that has it as authority. -/
def foreignVerifier : Verifier :=
  ⟨{ Config.default with authorityPartition := "acc://root.acme" }, origin, foreign, rfl⟩

/-- The sample network, with all blocks naming `text` as their source. -/
def answersFrom (text : String) : (query : Query) → Except QueryError query.Answer
  | .block .. => .ok { block with sourcePartition := some text }
  | query => answers query

/-- The validator's commit of the block. -/
def ownCommit : Commit := ⟨1, 0, block.blockHash, [⟨[], signature, 0⟩]⟩

theorem final_from (text : String) :
    ∃ f : Finality, f.validators = [validator] ∧ f.blockHeight = 1 ∧
    Commit.Finalizes { block with sourcePartition := some text } ownCommit f.validators f := by
  have final : (Commit.verify block ownCommit [validator]).2.any (·.blockHeight == 1) = true := by
    decide +kernel
  obtain ⟨f, final, height⟩ := (Option.any_eq_true _ _).1 final
  have final := Commit.verify_eq_some.1 final
  refine ⟨f, final.members, by simpa using height, ?_⟩
  rw [final.members]
  exact final.withSource (some text)

/-- The network has all evidence for an account of the partition that its blocks declare. -/
theorem own_evidence {v : Verifier} {text : String} (genesis : v.genesis = origin)
    (spells : Url.parse text = .ok v.authority) (account : Url) :
    ∃ e : OwnEvidence (.fixed (answersFrom text)) v account, e.declared = text := by
  obtain ⟨f, members, height, final⟩ := final_from text
  have source : (Backend.fixed (answersFrom text)).Always (.block account 1)
      (.ok { block with sourcePartition := some text }) := fun _ => rfl
  have set : (Backend.fixed (answersFrom text)).Always (.validatorSet v.authority 1)
      (.ok f.validators) := fun _ => congrArg Except.ok members.symm
  have someMember : f.validators ≠ [] := by
    rw [members]
    decide
  have start : f.blockHeight ≤ 1 := by
    rw [height]
    decide
  have trusted : f.validators = v.genesis.validators := by rw [members, genesis]; rfl
  refine ⟨⟨0, ⟨root, some ⟨root, root, 1, []⟩⟩, ⟨root, root, 1, []⟩, _, text, _,
    ownCommit, f, [], _, fun _ => rfl, fun _ => rfl, rfl, by decide, rfl, ⟨by decide, rfl⟩,
    source, rfl, spells, ⟨fun _ => rfl, rfl, rfl⟩,
    ⟨set, someMember, fun _ => rfl, by decide, final⟩, fun _ => rfl, .atStart start trusted⟩, rfl⟩

theorem names_directory : Partition.Names " ACC://DN.acme" verifier.authority := by
  refine ⟨?_, fun _ => by decide⟩
  rfl

/-- An account of the directory is verified from blocks that spell its name in capitals, here with a
cache that has lost nothing but the report of the first time. -/
theorem directory_accounts_verified : Partition.accepted verifier.authority.text = true ∧
    ∃ (account : Url) (e : OwnEvidence (.fixed (answersFrom " ACC://DN.acme")) verifier account),
      Url.parse "acc://alice" = .ok account ∧
      Inclusion.SourcedFrom (.fixed (answersFrom " ACC://DN.acme")) account verifier.authority ∧
      Partition.Names e.declared verifier.authority ∧
      (Inclusion.build (.fixed (answersFrom " ACC://DN.acme")) account "main" 0).SparesPartition ∧
      let caller : Caller := ⟨verifier, .fixed (answersFrom " ACC://DN.acme")⟩
      let used := (start .default 0).run (fun _ => caller)
        [.verify () "acc://alice", .clearTable .reports]
      ∃ r asked, (used.verify caller "acc://alice").1 = .ok r ∧ r.trustLevel = .full ∧
        (used.verify caller "acc://alice").2.state.journal = used.state.journal ++ asked ∧
        asked.Sublist e.exchanges := by
  have format : Partition.accepted verifier.authority.text = true := by decide
  obtain ⟨account, parsed, -⟩ : ∃ u, Url.parse "acc://alice" = .ok u ∧ u.text = "acc://alice" :=
    parse_alice rfl
  obtain ⟨e, declared⟩ : ∃ e : OwnEvidence (.fixed (answersFrom " ACC://DN.acme")) verifier account,
      e.declared = " ACC://DN.acme" := own_evidence rfl names_directory.parses account
  have named : Partition.Names e.declared verifier.authority := by
    rw [declared]
    exact names_directory
  obtain ⟨builds, -, -, sessions⟩ := own_accounts_verified verifier format
  have sourced : Inclusion.SourcedFrom (.fixed (answersFrom " ACC://DN.acme")) account
      verifier.authority := fun _ _ block same => ⟨_, by cases same; rfl, names_directory⟩
  exact ⟨format, account, e, parsed, sourced, named, builds _ _ sourced "main" 0,
    sessions _ "acc://alice" account e parsed named .default 0
      [.verify () "acc://alice", .clearTable .reports]⟩

/-- The network has all evidence for an account of the verifier's authority, which its blocks
declare in this spelling, but the first layer blames the partition. -/
structure Refuses (v : Verifier) (text : String) (account : Url) : Prop where
  evidence : ∃ e : OwnEvidence (.fixed (answersFrom text)) v account, e.declared = text
  blamed : ((Inclusion.build (.fixed (answersFrom text)) account "main" 0).run []).1 =
    .error (.partitionResolution 1 (some text))
  untrusted : ∃ r, ((start .default 0).verify ⟨v, .fixed (answersFrom text)⟩ account.text).1 =
    .ok r ∧
    r.trustLevel = .none

theorem refuses_of_level {v : Verifier} {text : String} {account : Url}
    (genesis : v.genesis = origin) (spells : Url.parse text = .ok v.authority)
    (blamed : ((Inclusion.build (.fixed (answersFrom text)) account "main" 0).run []).1 =
      .error (.partitionResolution 1 (some text)))
    (ends : ((start .default 0).verify ⟨v, .fixed (answersFrom text)⟩
      account.text).1.toOption.any (·.trustLevel == .none) = true) : Refuses v text account := by
  obtain ⟨r, returned, level⟩ := exists_of_any ends
  exact ⟨own_evidence genesis spells account, blamed, r, returned, by simpa using level⟩

/-- Accounts of an authority of another name are refused. In one more spelling, which is no name in
the sense of `Partition.Names`, those of the directory are refused as well. -/
theorem own_accounts_refused : ∃ account, Url.parse "acc://alice" = .ok account ∧
    Refuses foreignVerifier "acc://root.acme" account ∧
    Refuses verifier "acc://dn.acme/" account := by
  obtain ⟨account, parsed, spelled⟩ : ∃ u, Url.parse "acc://alice" = .ok u ∧
      u.text = "acc://alice" :=
    parse_alice rfl
  have own : Url.parse "acc://root.acme" = .ok foreignVerifier.authority := by
    have text : foreignVerifier.authority.text = "acc://root.acme" := by decide
    exact text ▸ Url.parse_text foreignVerifier.authority
  refine ⟨account, parsed, refuses_of_level rfl own rfl ?_, refuses_of_level rfl rfl rfl ?_⟩
  · rw [spelled]
    decide +kernel
  · rw [spelled]
    decide +kernel

end Session.Sample

end LightClient
