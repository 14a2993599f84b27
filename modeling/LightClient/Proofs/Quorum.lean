import LightClient.Finality
import LightClient.Proofs.Inquiry
import LightClient.Proofs.VotingPower

/-!
# Who has signed a block

The tally of a commit counts every validator once. Its result does not depend on the order in which
signatures come, nor on signatures that count for nothing: the signed power is the power of the
members of the set that have a valid signature among the precommits. A block is final exactly if
they have more than two thirds of the power of the set.
-/
namespace LightClient

namespace Validator

/-- The members with an address of their own, where of several with one address the last one
counts. -/
def standing : List Validator → List Validator
  | [] => []
  | v :: rest => if rest.any (·.address == v.address) then standing rest else v :: standing rest

theorem standing_sublist (validators : List Validator) :
    (standing validators).Sublist validators := by
  induction validators with
  | nil => exact .slnil
  | cons v rest ih =>
    rw [standing]
    split
    · exact ih.cons v
    · exact ih.cons_cons v

theorem standing_distinct (validators : List Validator) :
    (standing validators).Pairwise fun v w => v.address ≠ w.address := by
  induction validators with
  | nil => exact .nil
  | cons v rest ih =>
    rw [standing]
    split
    · exact ih
    · rename_i unique
      refine List.pairwise_cons.2 ⟨fun w hw same => unique ?_, ih⟩
      exact List.any_eq_true.2 ⟨w, (standing_sublist rest).subset hw, by simp [same]⟩

theorem find?_cons (v : Validator) (rest : List Validator) (address : Bytes) :
    find? (v :: rest) address =
      (find? rest address).or (if v.address = address then some v else none) := by
  simp only [find?, List.reverse_cons, List.find?_append, List.find?_cons, List.find?_nil]
  by_cases h : v.address = address
  · simp [h]
  · simp [h, show (v.address == address) = false by simpa using h]

theorem find?_eq_none {validators : List Validator} {address : Bytes} :
    find? validators address = none ↔ ∀ v ∈ validators, v.address ≠ address := by
  simp [find?]

theorem mem_standing_cons {v w : Validator} {rest : List Validator} :
    v ∈ standing (w :: rest) ↔
      v ∈ standing rest ∨ v = w ∧ ∀ u ∈ rest, u.address ≠ w.address := by
  rw [standing]
  split
  · rename_i taken
    obtain ⟨u, hu, same⟩ := List.any_eq_true.1 taken
    have twin : u.address = w.address := by simpa using same
    constructor
    · exact .inl
    · intro h
      rcases h with member | ⟨-, unique⟩
      · exact member
      · exact absurd twin (unique u hu)
  · rename_i free
    have unique : ∀ u ∈ rest, u.address ≠ w.address := by simpa using free
    rw [List.mem_cons, or_comm]
    simp only [and_iff_left unique]

theorem find?_eq_some {validators : List Validator} {address : Bytes} {v : Validator} :
    find? validators address = some v ↔ v ∈ standing validators ∧ v.address = address := by
  induction validators generalizing v with
  | nil => simp [find?, standing]
  | cons w rest ih =>
    rw [find?_cons, mem_standing_cons]
    cases found : find? rest address with
    | some u =>
      obtain ⟨later, own⟩ := ih.1 found
      rw [Option.some_or, ← found, ih]
      constructor
      · exact fun h => ⟨.inl h.1, h.2⟩
      · intro h
        obtain ⟨member | ⟨rfl, unique⟩, same⟩ := h
        · exact ⟨member, same⟩
        · exact absurd (own.trans same.symm) (unique u ((standing_sublist rest).subset later))
    | none =>
      have absent := find?_eq_none.1 found
      rw [Option.none_or]
      constructor
      · intro h
        split at h
        · rename_i own
          obtain rfl := Option.some.inj h
          exact ⟨.inr ⟨rfl, fun u hu same => absent u hu (same.trans own)⟩, own⟩
        · cases h
      · intro h
        obtain ⟨member | ⟨rfl, -⟩, own⟩ := h
        · exact absurd own (absent v ((standing_sublist rest).subset member))
        · rw [if_pos own]

/-- Of members with distinct addresses, one more has just its own power more. -/
theorem powerSum_filter_or {members : List Validator} {v : Validator} {keep : Validator → Bool}
    (distinct : members.Pairwise fun a b => a.address ≠ b.address) (member : v ∈ members)
    (fresh : keep v = false) :
    powerSum (members.filter fun w => keep w || w.address == v.address) =
      powerSum (members.filter keep) + v.power.toInt := by
  induction members with
  | nil => simp at member
  | cons u rest ih =>
    obtain ⟨first, later⟩ := List.pairwise_cons.1 distinct
    rcases List.mem_cons.1 member with rfl | member
    · have same : (rest.filter fun w => keep w || w.address == v.address) = rest.filter keep := by
        refine List.filter_congr fun w hw => ?_
        have : (w.address == v.address) = false := by simpa using (first w hw).symm
        rw [this, Bool.or_false]
      rw [List.filter_cons_of_pos (by simp), List.filter_cons_of_neg (by simp [fresh]), same,
        powerSum_cons]
      omega
    · have other : (u.address == v.address) = false := by simpa using first v member
      have tail := ih later member
      by_cases kept : keep u = true
      · rw [List.filter_cons_of_pos (by simp [kept]), List.filter_cons_of_pos kept, powerSum_cons,
          powerSum_cons, tail]
        omega
      · rw [List.filter_cons_of_neg (by simp [kept, other]), List.filter_cons_of_neg kept, tail]

/-- Whether some precommit under the member's address is valid. -/
def hasSigned (isValid : Validator → Precommit → Bool) (precommits : List Precommit)
    (v : Validator) :
    Bool :=
  precommits.any fun p => p.address == v.address && isValid v p

/-- The members that have a valid precommit. -/
def signatories (validators : List Validator) (isValid : Validator → Precommit → Bool)
    (precommits : List Precommit) : List Validator :=
  (standing validators).filter (hasSigned isValid precommits)

theorem signatories_sublist (validators : List Validator) (isValid : Validator → Precommit → Bool)
    (precommits : List Precommit) :
    (signatories validators isValid precommits).Sublist validators :=
  List.filter_sublist.trans (standing_sublist validators)

theorem hasSigned_append (isValid : Validator → Precommit → Bool) (done : List Precommit)
    (p : Precommit) (v : Validator) :
    hasSigned isValid (done ++ [p]) v =
      (hasSigned isValid done v || (p.address == v.address && isValid v p)) := by
  simp [hasSigned]

end Validator

namespace Tally
open Validator

section
variable (validators : List Validator) (isValid : Validator → Precommit → Bool) (total : Int64)

/-- What holds once some precommits have been counted. -/
structure Counted (done : List Precommit) (state : List Bytes × Tally) : Prop where
  mem_iff : ∀ address, address ∈ state.1 ↔
    ∃ v ∈ signatories validators isValid done, v.address = address
  signedPower : state.2.signedPower.toInt = powerSum (signatories validators isValid done)
  totalPower : state.2.totalPower = total
  requiredPower : state.2.requiredPower = quorumThreshold total

variable {validators isValid total}

/-- A precommit that adds nobody to the signers. -/
theorem signatories_append_same {done : List Precommit} {p : Precommit}
    (h : ∀ v ∈ standing validators, v.address = p.address → isValid v p = true →
      hasSigned isValid done v = true) :
    signatories validators isValid (done ++ [p]) = signatories validators isValid done := by
  refine List.filter_congr fun v hv => ?_
  rw [hasSigned_append]
  by_cases new : (p.address == v.address && isValid v p) = true
  · simp only [Bool.and_eq_true, beq_iff_eq] at new
    rw [h v hv new.1.symm new.2, Bool.true_or]
  · rw [Bool.not_eq_true] at new
    rw [new, Bool.or_false]

theorem powerSum_signatories_append {done : List Precommit} {p : Precommit} {v : Validator}
    (member : v ∈ standing validators) (own : v.address = p.address) (valid : isValid v p = true)
    (fresh : hasSigned isValid done v = false) :
    powerSum (signatories validators isValid (done ++ [p])) =
      powerSum (signatories validators isValid done) + v.power.toInt := by
  rw [signatories, signatories, ← powerSum_filter_or (standing_distinct validators) member fresh]
  congr 1
  refine List.filter_congr fun w hw => ?_
  rw [hasSigned_append, own]
  by_cases same : w.address = p.address
  · have : w = v := by
      have here := find?_eq_some.2 ⟨hw, same⟩
      rw [find?_eq_some.2 ⟨member, own⟩] at here
      exact (Option.some.inj here).symm
    simp [this, own, valid]
  · have : (p.address == w.address) = false := by simpa using fun h => same h.symm
    simp [this, same]

/-- A precommit under the address of a member is told from others by that address alone. -/
theorem eq_of_standing {p : Precommit} {v w : Validator}
    (found : find? validators p.address = some v) (member : w ∈ standing validators)
    (own : w.address = p.address) : w = v := by
  have here := find?_eq_some.2 ⟨member, own⟩
  rw [found] at here
  exact (Option.some.inj here).symm

/-- A precommit that adds nobody leaves the count as it is. -/
theorem Counted.unchanged {done : List Precommit} {counted : List Bytes} {t : Tally} {p : Precommit}
    {unknown duplicate invalid : Nat} (h : Counted validators isValid total done (counted, t))
    (adds_none : ∀ v ∈ standing validators, v.address = p.address → isValid v p = true →
      hasSigned isValid done v = true) :
    Counted validators isValid total (done ++ [p]) (counted, { t with
      skippedUnknown := unknown, skippedDuplicate := duplicate, invalid := invalid }) := by
  have same := signatories_append_same adds_none
  refine ⟨?_, ?_, h.totalPower, h.requiredPower⟩
  · rw [same]
    exact h.mem_iff
  · rw [same]
    exact h.signedPower

/-- The addresses that have been counted are those of members with a valid precommit. -/
theorem Counted.known_iff {done : List Precommit} {state : List Bytes × Tally} {p : Precommit}
    {v : Validator} (h : Counted validators isValid total done state)
    (found : find? validators p.address = some v) :
    p.address ∈ state.1 ↔ hasSigned isValid done v = true := by
  obtain ⟨member, own⟩ := find?_eq_some.1 found
  rw [h.mem_iff]
  constructor
  · intro h
    obtain ⟨w, hw, same⟩ := h
    obtain ⟨hw, signed⟩ := List.mem_filter.1 hw
    exact eq_of_standing found hw same ▸ signed
  · exact fun signed => ⟨v, List.mem_filter.2 ⟨member, signed⟩, own⟩

theorem mem_signatories_append {done : List Precommit} {p : Precommit} {v : Validator}
    (member : v ∈ standing validators) (own : v.address = p.address) (valid : isValid v p = true)
    (address : Bytes) :
    (∃ w ∈ signatories validators isValid (done ++ [p]), w.address = address) ↔
      address = p.address ∨ ∃ w ∈ signatories validators isValid done, w.address = address := by
  constructor
  · intro h
    obtain ⟨w, hw, same⟩ := h
    obtain ⟨hw, now⟩ := List.mem_filter.1 hw
    rw [hasSigned_append] at now
    rcases Bool.or_eq_true_iff.1 now with old | new
    · exact .inr ⟨w, List.mem_filter.2 ⟨hw, old⟩, same⟩
    · simp only [Bool.and_eq_true, beq_iff_eq] at new
      exact .inl (same.symm.trans new.1.symm)
  · rintro (rfl | ⟨w, hw, same⟩)
    · refine ⟨v, List.mem_filter.2 ⟨member, ?_⟩, own⟩
      rw [hasSigned_append]
      simp [own, valid]
    · obtain ⟨hw, old⟩ := List.mem_filter.1 hw
      refine ⟨w, List.mem_filter.2 ⟨hw, ?_⟩, same⟩
      rw [hasSigned_append, old, Bool.true_or]

/-- A first valid precommit adds the power of its member, and this does not overflow. -/
theorem Counted.add {done : List Precommit} {counted : List Bytes} {t : Tally} {p : Precommit}
    {v : Validator} {signers : Nat} (bounded : Bounded validators)
    (h : Counted validators isValid total done (counted, t))
    (member : v ∈ standing validators) (own : v.address = p.address) (valid : isValid v p = true)
    (fresh : hasSigned isValid done v = false) :
    Counted validators isValid total (done ++ [p])
      (p.address :: counted,
        { t with signedPower := t.signedPower + v.power, signers := signers }) := by
  -- The signers are members, so with one more of them their power is at most that of the whole set.
  have more := powerSum_signatories_append member own valid fresh
  have room := powerSum_le_of_sublist
    (signatories_sublist validators isValid (done ++ [p])) bounded.nonneg
  have low : 0 ≤ powerSum (signatories validators isValid done) := powerSum_nonneg fun w hw =>
    bounded.nonneg w ((signatories_sublist validators isValid done).subset hw)
  have own_nonneg := bounded.nonneg v ((standing_sublist validators).subset member)
  have fits := bounded.fits
  have signed : t.signedPower.toInt = _ := h.signedPower
  refine ⟨fun address => ?_, ?_, h.totalPower, h.requiredPower⟩
  · rw [mem_signatories_append member own valid, List.mem_cons, h.mem_iff]
  · rw [toInt_add_of_le (by omega) own_nonneg (by omega), more, signed]

theorem Counted.step {done : List Precommit} {state : List Bytes × Tally} (p : Precommit)
    (bounded : Bounded validators) (h : Counted validators isValid total done state) :
    Counted validators isValid total (done ++ [p]) (step validators isValid state p) := by
  obtain ⟨counted, t⟩ := state
  unfold Tally.step
  dsimp only
  cases found : find? validators p.address with
  | none =>
    exact h.unchanged fun v hv own _ =>
      absurd own (find?_eq_none.1 found v ((standing_sublist validators).subset hv))
  | some v =>
    obtain ⟨member, own⟩ := find?_eq_some.1 found
    have known : p.address ∈ counted ↔ _ := h.known_iff found
    dsimp only
    by_cases seen : p.address ∈ counted
    · rw [if_pos seen]
      exact h.unchanged fun w hw here _ => eq_of_standing found hw here ▸ known.1 seen
    · rw [if_neg seen]
      by_cases valid : isValid v p = true
      · rw [if_pos valid]
        exact h.add bounded member own valid (by simpa using mt known.2 seen)
      · rw [if_neg valid]
        exact h.unchanged fun w hw here ok => absurd (eq_of_standing found hw here ▸ ok) valid

theorem Counted.foldl {done : List Precommit} {state : List Bytes × Tally}
    (bounded : Bounded validators) (h : Counted validators isValid total done state)
    (rest : List Precommit) :
    Counted validators isValid total (done ++ rest)
      (rest.foldl (Tally.step validators isValid) state) := by
  induction rest generalizing done state with
  | nil => simpa using h
  | cons p rest ih =>
    have later := ih (h.step p bounded)
    rwa [List.append_assoc, List.singleton_append] at later

theorem counted_start : Counted validators isValid total [] ([], start total) := by
  have none : signatories validators isValid [] = [] := by
    simp [signatories, show hasSigned isValid [] = fun _ => false from rfl]
  refine ⟨fun address => ?_, ?_, rfl, rfl⟩
  · simp [none]
  · rw [none]
    rfl

variable (isValid total) in
/-- What the tally of all precommits comes to. -/
theorem counted_all (bounded : Bounded validators) (precommits : List Precommit) :
    ∃ counted, Counted validators isValid total precommits
      (counted, count validators isValid total precommits) := by
  have first : Counted validators isValid total [] ([], start total) := counted_start
  exact ⟨_, first.foldl bounded precommits⟩

theorem hasQuorum_count {precommits : List Precommit} (bounded : Bounded validators)
    (whole : total.toInt = powerSum validators) :
    (count validators isValid total precommits).hasQuorum = true ↔
      2 * powerSum validators < 3 * powerSum (signatories validators isValid precommits) := by
  obtain ⟨_, h⟩ := counted_all isValid total bounded precommits
  have low := powerSum_nonneg bounded.nonneg
  rw [hasQuorum, decide_eq_true_iff, h.requiredPower, quorumThreshold_le, h.signedPower, whole]
  omega

end

end Tally

namespace HeaderTree

theorem checkAppHash_eq_ok {block : Block} :
    checkAppHash block = .ok () ↔ committedRoot? block = some block.blockHash := by
  unfold checkAppHash
  split
  · rename_i commits
    exact ⟨fun _ => commits, fun _ => rfl⟩
  · rename_i fails
    constructor
    · intro h
      cases h
    · exact fun commits => absurd commits fails

end HeaderTree

namespace Commit
open Validator

/-- The members whose precommits in a commit are signatures of the block. -/
def signatories (block : Block) (commit : Commit) (validators : List Validator) (height : Int64) :
    List Validator :=
  Validator.signatories validators (isSignedBy block height commit.round) commit.precommits

/-- A commit makes a block final under a validator set, and this is recorded as `f`. -/
structure Finalizes (block : Block) (commit : Commit) (validators : List Validator) (f : Finality) :
    Prop where
  sameHeight : commit.height = block.height
  sameHash : commit.blockHash = block.blockHash
  header : HeaderTree.committedRoot? block = some block.blockHash
  bounded : Bounded validators
  quorum : 2 * powerSum validators <
    3 * powerSum (commit.signatories block validators f.blockHeight)
  blockHeight : f.blockHeight.toInt = block.height.toNat
  blockHash : f.blockHash = block.blockHash
  chainId : f.chainId = block.chainId
  round : f.round = commit.round
  members : f.validators = validators
  precommits : f.precommits = commit.precommits
  totalPower : f.totalPower.toInt = powerSum validators
  signedPower : f.signedPower.toInt = powerSum (commit.signatories block validators f.blockHeight)

theorem checkMatches_eq_ok {block : Block} {commit : Commit} :
    checkMatches block commit = .ok () ↔
      commit.height = block.height ∧ commit.blockHash = block.blockHash := by
  unfold checkMatches
  split
  · rename_i matching
    exact ⟨fun _ => matching, fun _ => rfl⟩
  · rename_i other
    constructor
    · intro h
      cases h
    · exact fun matching => absurd matching other

theorem signedHeight_eq_ok {block : Block} {height : Int64} :
    signedHeight block = .ok height ↔ height.toInt = block.height.toNat := by
  have least := Int64.le_toInt height
  have most := Int64.toInt_le height
  have bound : Int64.maxValue.toInt = 9223372036854775807 := by decide
  unfold signedHeight
  split
  · rename_i fits
    have exactly : (Int64.ofInt block.height.toNat).toInt = block.height.toNat :=
      Int64.toInt_ofInt_of_le (by omega) (by omega)
    constructor
    · intro h
      obtain rfl := Except.ok.inj h
      exact exactly
    · intro h
      rw [← Int64.toInt_inj.1 (h.trans exactly.symm)]
  · constructor
    · intro h
      cases h
    · intro h
      omega

theorem validPower_eq_ok {validators : List Validator} {total : Int64} :
    validPower validators = .ok total ↔
      Bounded validators ∧ total.toInt = powerSum validators := by
  rw [← totalPower?_eq_some]
  unfold validPower
  split
  · rename_i power found
    rw [found, Except.ok.injEq, Option.some.injEq]
  · rename_i found
    rw [found]
    constructor <;> intro h <;> cases h

/-- The tally and the record that a commit leads to, once all that is required of the block, the
commit and the set holds. -/
theorem tally_eq_ok {block : Block} {commit : Commit} {validators : List Validator} {f : Finality}
    {t : Tally} : tally block commit validators = .ok (f, t) ↔
      (commit.height = block.height ∧ commit.blockHash = block.blockHash) ∧
      HeaderTree.committedRoot? block = some block.blockHash ∧
      ∃ height : Int64, height.toInt = block.height.toNat ∧
      ∃ total : Int64, (Bounded validators ∧ total.toInt = powerSum validators) ∧
        t = Tally.count validators (isSignedBy block height commit.round) total commit.precommits ∧
        f = ⟨height, block.blockHash, block.chainId, commit.round, validators, commit.precommits,
          t.totalPower, t.signedPower⟩ := by
  unfold tally
  rw [Failure.check_bind_eq_ok, Failure.check_bind_eq_ok]
  simp only [Failure.bind_eq_ok, checkMatches_eq_ok, HeaderTree.checkAppHash_eq_ok,
    signedHeight_eq_ok, validPower_eq_ok]
  constructor
  · intro h
    obtain ⟨matching, header, height, fits, total, power, done⟩ := h
    obtain ⟨rfl, rfl⟩ := Prod.mk.inj (Except.ok.inj done)
    exact ⟨matching, header, height, fits, total, power, rfl, rfl⟩
  · intro h
    obtain ⟨matching, header, height, fits, total, power, rfl, rfl⟩ := h
    exact ⟨matching, header, height, fits, total, power, rfl⟩

/-- The layer yields a record exactly if the commit makes the block final. -/
theorem verify_eq_some {block : Block} {commit : Commit} {validators : List Validator}
    {f : Finality} :
    (verify block commit validators).2 = some f ↔ Finalizes block commit validators f := by
  constructor
  · intro h
    unfold verify at h
    split at h
    · rename_i g t counted
      obtain ⟨⟨sameHeight, sameHash⟩, header, height, fits, total, ⟨bounded, whole⟩, rfl, rfl⟩ :=
        tally_eq_ok.1 counted
      dsimp only at h
      split at h
      · rename_i quorum
        obtain rfl := Option.some.inj h
        obtain ⟨_, all⟩ := Tally.counted_all (isSignedBy block height commit.round) total bounded
          commit.precommits
        exact ⟨sameHeight, sameHash, header, bounded,
          (Tally.hasQuorum_count bounded whole).1 quorum, fits, rfl, rfl, rfl, rfl, rfl,
          (congrArg Int64.toInt all.totalPower).trans whole, all.signedPower⟩
      · cases h
    · cases h
  · intro h
    obtain ⟨height, hash, chainId, round, members, precommits, totalPower, signedPower⟩ := f
    obtain ⟨sameHeight, sameHash, header, bounded, quorum, fits, rfl, rfl, rfl, rfl, rfl, whole,
      signed⟩ := h
    obtain ⟨_, all⟩ := Tally.counted_all (isSignedBy block height commit.round) totalPower bounded
      commit.precommits
    have counted := tally_eq_ok.2 ⟨⟨sameHeight, sameHash⟩, header, height, fits, totalPower,
      ⟨bounded, whole⟩, rfl, rfl⟩
    have power := Int64.toInt_inj.1 (all.signedPower.trans signed.symm)
    unfold verify
    rw [counted]
    dsimp only
    rw [if_pos ((Tally.hasQuorum_count bounded whole).2 quorum), all.totalPower, power]

end Commit

namespace Finality
open Validator

/-- The members of the recorded set whose recorded precommits sign the recorded block, which has the
given part set. -/
def signatories (f : Finality) (partSet : PartSet) : List Validator :=
  Validator.signatories f.validators (fun v p => Ed25519.verify v.publicKey
    (Vote.signBytes ⟨f.blockHeight, f.round, f.blockHash, partSet, p.timestamp, f.chainId⟩)
    p.signature) f.precommits

/-- The record of a final block proves by itself that a quorum has signed. -/
theorem quorum_of_finalizes {block : Block} {commit : Commit} {validators : List Validator}
    {f : Finality} (h : commit.Finalizes block validators f) :
    2 * f.totalPower.toInt < 3 * powerSum (f.signatories block.partSet) := by
  have same : f.signatories block.partSet = commit.signatories block validators f.blockHeight := by
    simp only [signatories, Commit.signatories, h.members, h.blockHash, h.chainId, h.round,
      h.precommits]
    rfl
  rw [same, h.totalPower]
  exact h.quorum

end Finality

end LightClient
