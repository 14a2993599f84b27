import LightClient.Proofs.Derivation
import LightClient.Proofs.HandoverMessage
import LightClient.Proofs.Quorum
import LightClient.Proofs.SignBytes

/-!
# Who answers for a fork

Two quorums of one validator set have members in common with more than a third of its power. So if
two blocks are final under one set, or two handovers of one set are admitted, these members have
signed both; and if the two are different, they have signed two different messages, for the bytes
that are signed tell what they are about.
-/
namespace LightClient
open Validator

namespace Commit

/-- Whether a commit holds a valid precommit of a member. -/
def hasVoteOf (block : Block) (commit : Commit) (height : Int64) (v : Validator) : Bool :=
  hasSigned (isSignedBy block height commit.round) commit.precommits v

/-- The members, one for each address, that have valid precommits in two commits. -/
def doubleSigners (validators : List Validator) (first second : Validator → Bool) :
    List Validator :=
  (standing validators).filter fun v => first v && second v

theorem hasVoteOf_iff {block : Block} {commit : Commit} {height : Int64} {v : Validator} :
    commit.hasVoteOf block height v = true ↔ ∃ p ∈ commit.precommits, p.address = v.address ∧
      Ed25519.verify v.publicKey (vote block height commit.round p).signBytes p.signature =
        true := by
  simp [hasVoteOf, hasSigned, isSignedBy]

theorem mem_doubleSigners {validators : List Validator} {first second : Validator → Bool}
    {v : Validator} : v ∈ doubleSigners validators first second ↔
      find? validators v.address = some v ∧ first v = true ∧ second v = true := by
  have stands : find? validators v.address = some v ↔ v ∈ standing validators := by
    simp [find?_eq_some]
  rw [doubleSigners, List.mem_filter, Bool.and_eq_true, stands]

theorem doubleSigners_distinct (validators : List Validator) (first second : Validator → Bool) :
    (doubleSigners validators first second).Pairwise fun v w => v.address ≠ w.address :=
  (standing_distinct validators).filter _

/-- The check succeeds if the tally does and reaches a quorum. -/
theorem check_eq_ok {block : Block} {commit : Commit} {validators : List Validator} {f : Finality}
    {t : Tally} : check block commit validators = .ok (f, t) ↔
      tally block commit validators = .ok (f, t) ∧ t.hasQuorum = true := by
  unfold check
  rw [Failure.bind_eq_ok]
  constructor
  · intro h
    obtain ⟨⟨g, u⟩, counted, h⟩ := h
    dsimp only at h
    split at h
    · rename_i quorum
      obtain ⟨rfl, rfl⟩ := Prod.mk.inj (Except.ok.inj h)
      exact ⟨counted, quorum⟩
    · cases h
  · intro h
    obtain ⟨counted, quorum⟩ := h
    exact ⟨(f, t), counted, if_pos quorum⟩

/-- A check that succeeds has made the block final, and its tally has the power of the record. -/
theorem finalizes_of_check {block : Block} {commit : Commit} {validators : List Validator}
    {f : Finality} {t : Tally} (checked : check block commit validators = .ok (f, t)) :
    Finalizes block commit validators f ∧ f.totalPower = t.totalPower := by
  obtain ⟨counted, quorum⟩ := check_eq_ok.1 checked
  have record : (verify block commit validators).2 = some f := by
    unfold verify
    rw [counted]
    dsimp only
    rw [if_pos quorum]
  obtain ⟨-, -, height, -, total, -, -, rfl⟩ := tally_eq_ok.1 counted
  exact ⟨verify_eq_some.1 record, rfl⟩

/-- Votes for different blocks or rounds have different sign bytes. -/
theorem signBytes_ne {block block' : Block} {height height' : Int64} {round round' : Int32}
    {p p' : Precommit} (fits : block.partSet.FitsWith block.chainId)
    (fits' : block'.partSet.FitsWith block'.chainId)
    (differ : height ≠ height' ∨ round ≠ round' ∨ block.blockHash ≠ block'.blockHash ∨
      block.partSet ≠ block'.partSet ∨ block.chainId ≠ block'.chainId) :
    (vote block height round p).signBytes ≠ (vote block' height' round' p').signBytes := by
  intro same
  obtain ⟨h, r, b, s, -, c⟩ := Vote.mk.inj (Vote.signBytes_injective fits fits' same)
  simp_all

/-- The members with a vote in two commits that reach a quorum have more than a third of the
power. -/
theorem third_of_double_signers {block block' : Block} {commit commit' : Commit}
    {validators : List Validator} {f f' : Finality} (final : Finalizes block commit validators f)
    (final' : Finalizes block' commit' validators f') :
    powerSum validators < 3 * powerSum (doubleSigners validators
      (commit.hasVoteOf block f.blockHeight) (commit'.hasVoteOf block' f'.blockHeight)) := by
  have whole := powerSum_le_of_sublist (standing_sublist validators) final.bounded.nonneg
  have nonneg : ∀ v ∈ standing validators, 0 ≤ v.power.toInt := fun v member =>
    final.bounded.nonneg v ((standing_sublist validators).subset member)
  have quorum := final.quorum
  have quorum' := final'.quorum
  rw [← List.map_id (standing validators)] at whole
  rw [← List.map_id (signatories block commit validators f.blockHeight)] at quorum
  rw [← List.map_id (signatories block' commit' validators f'.blockHeight)] at quorum'
  have third := third_of_quorums nonneg whole quorum quorum'
  rw [List.map_id'] at third
  exact third

/-- Let two blocks be final under one validator set. The members that have valid precommits in both
commits, each counted once with the power of the last entry of its address, have more than a third
of the power. If the votes differ in more than the time, each of them has signed two different
messages with one key. -/
theorem double_signers_of_final_blocks {block block' : Block} {commit commit' : Commit}
    {validators : List Validator} {f f' : Finality} {t t' : Tally}
    (checked : check block commit validators = .ok (f, t))
    (checked' : check block' commit' validators = .ok (f', t')) :
    let signers := doubleSigners validators (commit.hasVoteOf block f.blockHeight)
      (commit'.hasVoteOf block' f'.blockHeight)
    (signers.Pairwise fun v w => v.address ≠ w.address) ∧
    (∀ v, v ∈ signers ↔ find? validators v.address = some v ∧
      commit.hasVoteOf block f.blockHeight v = true ∧
      commit'.hasVoteOf block' f'.blockHeight v = true) ∧
    t.totalPower.toInt < 3 * powerSum signers ∧
    (block.partSet.FitsWith block.chainId → block'.partSet.FitsWith block'.chainId →
      (block.height ≠ block'.height ∨ commit.round ≠ commit'.round ∨
        block.blockHash ≠ block'.blockHash ∨ block.partSet ≠ block'.partSet ∨
        block.chainId ≠ block'.chainId) →
      ∀ v ∈ signers, ∃ p ∈ commit.precommits, ∃ p' ∈ commit'.precommits,
        p.address = v.address ∧ p'.address = v.address ∧
        (vote block f.blockHeight commit.round p).signBytes
          ≠ (vote block' f'.blockHeight commit'.round p').signBytes ∧
        Ed25519.verify v.publicKey (vote block f.blockHeight commit.round p).signBytes p.signature
          = true ∧
        Ed25519.verify v.publicKey
          (vote block' f'.blockHeight commit'.round p').signBytes p'.signature
          = true) := by
  intro signers
  obtain ⟨final, power⟩ := finalizes_of_check checked
  obtain ⟨final', -⟩ := finalizes_of_check checked'
  refine ⟨doubleSigners_distinct _ _ _, fun v => mem_doubleSigners, ?_, ?_⟩
  · rw [← power, final.totalPower]
    exact third_of_double_signers final final'
  · intro fits fits' differ v member
    obtain ⟨-, voted, voted'⟩ := mem_doubleSigners.1 member
    obtain ⟨p, hp, own, signed⟩ := hasVoteOf_iff.1 voted
    obtain ⟨p', hp', own', signed'⟩ := hasVoteOf_iff.1 voted'
    have differ : f.blockHeight ≠ f'.blockHeight ∨ commit.round ≠ commit'.round ∨
        block.blockHash ≠ block'.blockHash ∨ block.partSet ≠ block'.partSet ∨
        block.chainId ≠ block'.chainId := by
      refine differ.imp_left fun other same => other ?_
      have heights := congrArg Int64.toInt same
      rw [final.blockHeight, final'.blockHeight] at heights
      exact UInt64.toNat_inj.1 (Int.ofNat_inj.1 heights)
    exact ⟨p, hp, p', hp', own, own', signBytes_ne fits fits' differ, signed, signed'⟩

namespace Sample
open Session.Sample

/-- The heir votes for the first block. -/
def forBlock : Commit := ⟨1, 0, block.blockHash, [⟨heir.address, signature, 0⟩]⟩

/-- The heir votes for the rival as well, and so does the first validator. -/
def forRival : Commit :=
  ⟨1, 0, rival.blockHash, [⟨validator.address, signature, 0⟩, ⟨heir.address, signature, 0⟩]⟩

end Sample

open Session.Sample Sample in
/-- Two blocks at one height, both final by the vote of the heir. -/
theorem double_signers_of_block_and_rival : ∃ f f' t t',
    check block forBlock [validator, heir] = .ok (f, t) ∧
    check rival forRival [validator, heir] = .ok (f', t') ∧
    block.partSet.FitsWith block.chainId ∧ rival.partSet.FitsWith rival.chainId ∧
    block.blockHash ≠ rival.blockHash ∧
    let signers := doubleSigners [validator, heir] (forBlock.hasVoteOf block f.blockHeight)
      (forRival.hasVoteOf rival f'.blockHeight)
    t.totalPower.toInt < 3 * powerSum signers ∧
      ∀ v ∈ signers, ∃ p ∈ forBlock.precommits, ∃ p' ∈ forRival.precommits,
        p.address = v.address ∧ p'.address = v.address ∧
        (vote block f.blockHeight forBlock.round p).signBytes
          ≠ (vote rival f'.blockHeight forRival.round p').signBytes ∧
        Ed25519.verify v.publicKey (vote block f.blockHeight forBlock.round p).signBytes p.signature
          = true ∧
        Ed25519.verify v.publicKey
          (vote rival f'.blockHeight forRival.round p').signBytes p'.signature
          = true := by
  have final : (check block forBlock [validator, heir]).toOption.any (fun _ => true) = true := by
    decide +kernel
  have final' : (check rival forRival [validator, heir]).toOption.any (fun _ => true) = true := by
    decide +kernel
  obtain ⟨⟨f, t⟩, checked, -⟩ := exists_of_any final
  obtain ⟨⟨f', t'⟩, checked', -⟩ := exists_of_any final'
  have fits : block.partSet.FitsWith block.chainId := by
    unfold PartSet.FitsWith
    decide
  have differ : block.blockHash ≠ rival.blockHash := by decide
  obtain ⟨-, -, third, signed⟩ := double_signers_of_final_blocks checked checked'
  exact ⟨f, f', t, t', checked, checked', fits, fits, differ, third,
    signed fits fits (.inr (.inr (.inl differ)))⟩

end Commit

namespace Handover
variable {algorithm : HashAlgorithm}

/-- Whether a slot of a handover holds the signature of the member that it is for. -/
def isSlotSigned (algorithm : HashAlgorithm) (h : Handover) (v : Validator) (slot : Bytes) : Bool :=
  !slot.isEmpty && isSignedBy (h.message algorithm) v slot

/-- The outgoing members, one for each slot, whose slots are signed in two handovers. -/
def doubleSigners (algorithm : HashAlgorithm) (h h' : Handover) : List Validator :=
  ((h.oldSet.zip (h.signatures.zip h'.signatures)).filter fun slot =>
    h.isSlotSigned algorithm slot.1 slot.2.1 && h'.isSlotSigned algorithm slot.1 slot.2.2).map (·.1)

/-- The step that a handover takes, without the signatures for it. -/
def step (h : Handover) : Int64 × Int64 × List Validator × List Validator :=
  (h.fromHeight, h.toHeight, h.oldSet, h.newSet)

/-- Two lists of handovers take the same steps before an index, and at it they lead to different
heights or to different sets. -/
structure ForkAt (handovers handovers' : List Handover) (index : Nat) (h h' : Handover) : Prop where
  before : ∀ j < index, handovers[j]?.map step = handovers'[j]?.map step
  left : handovers[index]? = some h
  right : handovers'[index]? = some h'
  apart : h.toHeight ≠ h'.toHeight ∨ h.newSet ≠ h'.newSet

/-- The slots of a handover may be part of a list that tells more. -/
theorem signatories_of_map {α : Type} {h : Handover} {slots : List α} {own : α → Bytes}
    (same : slots.map own = h.signatures) :
    ((h.oldSet.zip slots).filter fun slot => h.isSlotSigned algorithm slot.1 (own slot.2)).map (·.1)
      = h.signatories algorithm := by
  rw [signatories, ← same, List.zip_map_right, List.filter_map, List.map_map]
  rfl

/-- The members that have signed two handovers of one set have more than a third of its power. -/
theorem third_of_double_signers {h h' : Handover} (admitted : h.Admitted algorithm)
    (admitted' : h'.Admitted algorithm) (outgoing : h.oldSet = h'.oldSet) :
    powerSum h.oldSet < 3 * powerSum (h.doubleSigners algorithm h') := by
  have slots : h.signatures.length = h'.signatures.length := by
    rw [admitted.slots, admitted'.slots, outgoing]
  have one : h.oldSet.length ≤ (h.signatures.zip h'.signatures).length := by
    rw [List.length_zip, ← slots, Nat.min_self]
    exact Nat.le_of_eq admitted.slots.symm
  have whole : (h.oldSet.zip (h.signatures.zip h'.signatures)).map (·.1) = h.oldSet :=
    List.map_fst_zip one
  have quorum := admitted.quorum
  have quorum' := admitted'.quorum
  rw [← signatories_of_map (List.map_fst_zip (Nat.le_of_eq slots))] at quorum
  rw [← signatories_of_map (List.map_snd_zip (Nat.le_of_eq slots.symm)), ← outgoing] at quorum'
  exact third_of_quorums
    (fun slot member => admitted.oldBounded.nonneg slot.1 (List.of_mem_zip member).1)
    (Int.le_of_eq (congrArg powerSum whole)) quorum quorum'

/-- Where two chains from one set part, both go on from one set at one height. -/
theorem Chain.fork {set final final' : List Validator} {height reached reached' : Int64}
    {handovers handovers' : List Handover} {index : Nat} {h h' : Handover}
    (chain : Chain algorithm set height handovers final reached)
    (chain' : Chain algorithm set height handovers' final' reached')
    (fork : ForkAt handovers handovers' index h h') :
    h.Admitted algorithm ∧ h'.Admitted algorithm ∧ h.oldSet = h'.oldSet ∧
      h.fromHeight = h'.fromHeight := by
  obtain ⟨before, left, right, -⟩ := fork
  induction index generalizing set height handovers handovers' with
  | zero =>
    cases chain with
    | done => cases left
    | next admitted starts outgoing _ =>
      cases chain' with
      | done => cases right
      | next admitted' starts' outgoing' _ =>
        obtain rfl := Option.some.inj left
        obtain rfl := Option.some.inj right
        exact ⟨admitted, admitted', outgoing.trans outgoing'.symm, starts.trans starts'.symm⟩
  | succ index ih =>
    cases chain with
    | done => cases left
    | next _ _ _ later =>
      cases chain' with
      | done => cases right
      | next _ _ _ later' =>
        have same := Option.some.inj (before 0 (Nat.zero_lt_succ index))
        obtain ⟨-, same⟩ := Prod.mk.inj same
        obtain ⟨heights, same⟩ := Prod.mk.inj same
        obtain ⟨-, sets⟩ := Prod.mk.inj same
        rw [← heights, ← sets] at later'
        exact ih later later' (fun j inside => before (j + 1) (Nat.succ_lt_succ inside)) left right

end Handover

namespace Genesis
open Handover

/-- Let two walks from one genesis be successful beyond the first block, and let their handovers
part. Then they part at handovers of one set at one height, and the members whose slots are signed
in both have more than a third of its power. What they have signed are two different digests, unless
the bytes of the two handovers collide. -/
theorem double_signers_of_fork {genesis : Genesis} {algorithm : HashAlgorithm}
    {current current' : List Validator} {height height' : Int64}
    {handovers handovers' : List Handover}
    {trace trace' : GenesisTrace} {index : Nat} {h h' : Handover} (later : 1 < height)
    (later' : 1 < height') (traced : genesis.check algorithm current height handovers = .ok trace)
    (traced' : genesis.check algorithm current' height' handovers' = .ok trace')
    (fork : ForkAt handovers handovers' index h h') :
    h.oldSet = h'.oldSet ∧ h.fromHeight = h'.fromHeight ∧
      powerSum h.oldSet < 3 * powerSum (h.doubleSigners algorithm h') ∧
      (h.Encodable → h'.Encodable →
        h.message algorithm ≠ h'.message algorithm ∨
          algorithm.Confuses h.encodeBytes h'.encodeBytes) := by
  obtain ⟨_, -, chain, -⟩ := chain_of_check later traced
  obtain ⟨_, -, chain', -⟩ := chain_of_check later' traced'
  obtain ⟨admitted, admitted', outgoing, starts⟩ := chain.fork chain' fork
  refine ⟨outgoing, starts, third_of_double_signers admitted admitted' outgoing, ?_⟩
  intro encodable encodable'
  by_cases same : h.message algorithm = h'.message algorithm
  · refine .inr ⟨fun bytes => ?_, same⟩
    obtain ⟨-, heights, -, sets⟩ := encodeBytes_injective encodable encodable' bytes
    exact fork.apart.elim (fun other => other heights) (fun other => other sets)
  · exact .inl same

open Session.Sample in
/-- After the same step to two members, the heir has signed that one of them remains and that the
other one does. -/
theorem double_signers_of_remains_returns : ∃ trace trace',
    origin.check .sha256 [heir] 6 [joins, remains] = .ok trace ∧
    origin.check .sha256 [validator] 7 [rejoins, returns] = .ok trace' ∧
    (1 : Int64) < 6 ∧ (1 : Int64) < 7 ∧
    ForkAt [joins, remains] [rejoins, returns] 1 remains returns ∧
    remains.Encodable ∧ returns.Encodable ∧
    powerSum [validator, heir] < 3 * powerSum (remains.doubleSigners .sha256 returns) ∧
    (remains.message .sha256 ≠ returns.message .sha256 ∨
      HashAlgorithm.sha256.Confuses remains.encodeBytes returns.encodeBytes) := by
  have accepted : (origin.check .sha256 [heir] 6 [joins, remains]).toOption.any
      (fun _ => true) = true := by decide +kernel
  have accepted' : (origin.check .sha256 [validator] 7 [rejoins, returns]).toOption.any
      (fun _ => true) = true := by decide +kernel
  obtain ⟨trace, traced, -⟩ := exists_of_any accepted
  obtain ⟨trace', traced', -⟩ := exists_of_any accepted'
  have later : (1 : Int64) < 6 := by decide
  have later' : (1 : Int64) < 7 := by decide
  have before : ∀ j < 1, [joins, remains][j]?.map step = [rejoins, returns][j]?.map step := by
    intro j inside
    obtain rfl := Nat.lt_one_iff.1 inside
    rfl
  have fork : ForkAt [joins, remains] [rejoins, returns] 1 remains returns :=
    ⟨before, rfl, rfl, .inl (by decide)⟩
  have first : validator.Encodable := ⟨by decide, by decide⟩
  have second : heir.Encodable := ⟨by decide, by decide⟩
  have both : EncodableSet [validator, heir] := ⟨by decide, by simp [first, second]⟩
  have encodable : remains.Encodable := ⟨both, by decide, by simp [remains, second]⟩
  have encodable' : returns.Encodable := ⟨both, by decide, by simp [returns, first]⟩
  obtain ⟨-, -, third, signed⟩ := double_signers_of_fork later later' traced traced' fork
  exact ⟨trace, trace', traced, traced', later, later', fork, encodable, encodable', third,
    signed encodable encodable'⟩

end Genesis

end LightClient
