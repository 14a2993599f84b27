import LightClient.Proofs.Counting
import LightClient.Proofs.Sample

/-!
# The threshold of a quorum

The threshold is computed in words of 128 bits and narrowed to 64. No step of that overflows and the
narrowing loses nothing, so for every total it is the least power that is more than two thirds in
unbounded integers. It grows with the total, is never zero and does not go beyond a positive total:
a set of which everyone signs has a quorum, under a commit as under a handover.
-/
namespace LightClient

namespace Validator

/-- The threshold as it is computed in words, where there is none if a step overflows or if the
narrow word stands for another number than the wide one. -/
def thresholdInWords? (total : Int64) : Option Int64 :=
  let wide := (max total 0).toBitVec.signExtend 128
  if wide.smulOverflow 2 then none
  else if ((wide * 2).sdiv 3).saddOverflow 1 then none
  else
    let threshold := (wide * 2).sdiv 3 + 1
    let narrow := Int64.ofBitVec (threshold.setWidth 64)
    if narrow.toInt = threshold.toInt then some narrow else none

theorem toInt_max (a b : Int64) : (max a b).toInt = max a.toInt b.toInt := by
  have choice : max a b = if a ≤ b then b else a := rfl
  rw [choice]
  split
  · rename_i le
    rw [Int.max_eq_right (Int64.le_iff_toInt_le.1 le)]
  · rename_i gt
    have := mt Int64.le_iff_toInt_le.2 gt
    omega

/-- A number that fits 64 bits is the same in 128. -/
theorem toInt_signExtend (a : Int64) : (a.toBitVec.signExtend 128).toInt = a.toInt := by
  rw [BitVec.toInt_signExtend_of_le (by decide), Int64.toInt_toBitVec]

section
variable {wide : BitVec 128} (low : 0 ≤ wide.toInt) (high : wide.toInt ≤ Int64.maxValue.toInt)
include low high

theorem toInt_double : wide.smulOverflow 2 = false ∧ (wide * 2).toInt = wide.toInt * 2 := by
  have most : Int64.maxValue.toInt = 9223372036854775807 := by decide
  have two : (2 : BitVec 128).toInt = 2 := by decide
  have fits : wide.smulOverflow 2 = false := by
    rw [BitVec.smulOverflow, two]
    simp only [Bool.or_eq_false_iff, decide_eq_false_iff_not]
    omega
  have exactly := BitVec.toInt_mul_of_not_smulOverflow (ne_true_of_eq_false fits)
  rw [two] at exactly
  exact ⟨fits, exactly⟩

theorem toInt_third : ((wide * 2).sdiv 3).toInt = wide.toInt * 2 / 3 := by
  have three : (3 : BitVec 128).toInt = 3 := by decide
  have double := (toInt_double low high).2
  rw [BitVec.toInt_sdiv_of_ne_or_ne _ _ (.inr (by decide)), three, double]
  exact Int.tdiv_eq_ediv_of_nonneg (by omega)

theorem toInt_next :
    ((wide * 2).sdiv 3).saddOverflow 1 = false ∧
      ((wide * 2).sdiv 3 + 1).toInt = wide.toInt * 2 / 3 + 1 := by
  have most : Int64.maxValue.toInt = 9223372036854775807 := by decide
  have one : (1 : BitVec 128).toInt = 1 := by decide
  have third := toInt_third low high
  have fits : ((wide * 2).sdiv 3).saddOverflow 1 = false := by
    rw [BitVec.saddOverflow, one, third]
    simp only [Bool.or_eq_false_iff, decide_eq_false_iff_not]
    omega
  have exactly := BitVec.toInt_add_of_not_saddOverflow (ne_true_of_eq_false fits)
  rw [one, third] at exactly
  exact ⟨fits, exactly⟩

end

/-- What fits 64 bits is the same when it is cut down to them. -/
theorem narrow_eq {wide : BitVec 128} {n : Int64} (same : wide.toInt = n.toInt) :
    Int64.ofBitVec (wide.setWidth 64) = n := by
  have extended : wide = n.toBitVec.signExtend 128 :=
    BitVec.eq_of_toInt_eq (same.trans (toInt_signExtend n).symm)
  have cut : (n.toBitVec.signExtend 128).setWidth 64 = n.toBitVec := by
    ext i inside
    have within : i < 128 := by omega
    simp [within, BitVec.getElem_signExtend, inside]
  rw [extended, cut, Int64.ofBitVec_toBitVec]

theorem thresholdInWords?_eq (total : Int64) :
    thresholdInWords? total = some (quorumThreshold total) := by
  have zero : (0 : Int64).toInt = 0 := by decide
  have bound := Int64.toInt_le total
  have most : Int64.maxValue.toInt = 9223372036854775807 := by decide
  have extended : ((max total 0).toBitVec.signExtend 128).toInt = max total.toInt 0 := by
    rw [toInt_signExtend, toInt_max, zero]
  have low : 0 ≤ ((max total 0).toBitVec.signExtend 128).toInt := by omega
  have high : ((max total 0).toBitVec.signExtend 128).toInt ≤ Int64.maxValue.toInt := by omega
  have product := (toInt_double low high).1
  obtain ⟨sum, threshold⟩ := toInt_next low high
  rw [extended, ← toInt_quorumThreshold] at threshold
  unfold thresholdInWords?
  simp only [product, sum, narrow_eq threshold, threshold, if_true, Bool.false_eq_true, if_false]

theorem one_le_quorumThreshold (total : Int64) : 1 ≤ quorumThreshold total := by
  have one : (1 : Int64).toInt = 1 := by decide
  rw [Int64.le_iff_toInt_le, toInt_quorumThreshold, one]
  omega

theorem quorumThreshold_mono {total total' : Int64} (le : total ≤ total') :
    quorumThreshold total ≤ quorumThreshold total' := by
  rw [Int64.le_iff_toInt_le] at le ⊢
  rw [toInt_quorumThreshold, toInt_quorumThreshold]
  omega

theorem quorumThreshold_le_self {total : Int64} (pos : 0 < total) :
    quorumThreshold total ≤ total := by
  have zero : (0 : Int64).toInt = 0 := by decide
  rw [Int64.lt_iff_toInt_lt, zero] at pos
  rw [quorumThreshold_le]
  omega

/-- Everyone has signed a commit if and only if everyone has a valid precommit and no address occurs
twice. -/
theorem signatories_eq_self {validators : List Validator} {isValid : Validator → Precommit → Bool}
    {precommits : List Precommit} :
    signatories validators isValid precommits = validators ↔
      (validators.map (·.address)).Nodup ∧
      ∀ v ∈ validators, hasSigned isValid precommits v = true := by
  constructor
  · intro everyone
    have distinct : (signatories validators isValid precommits).Pairwise
        fun v w => v.address ≠ w.address := signatories_distinct precommits
    rw [everyone] at distinct
    refine ⟨List.pairwise_map.2 distinct, fun v member => ?_⟩
    rw [← everyone] at member
    exact (List.mem_filter.1 member).2
  · intro h
    obtain ⟨distinct, signed⟩ := h
    rw [signatories, standing_eq_self distinct, List.filter_eq_self]
    exact signed

theorem powerSum_pos {validators : List Validator} {total : Int64}
    (found : totalPower? validators = some total) (pos : 0 < total) : 0 < powerSum validators := by
  have zero : (0 : Int64).toInt = 0 := by decide
  rw [Int64.lt_iff_toInt_lt, zero, (totalPower?_eq_some.1 found).2] at pos
  exact pos

end Validator

namespace Finality

theorem hasQuorum_iff (f : Finality) :
    f.hasQuorum = true ↔ 2 * max f.totalPower.toInt 0 < 3 * f.signedPower.toInt := by
  rw [hasQuorum, decide_eq_true_iff, requiredPower, Validator.quorumThreshold_le]

end Finality

namespace Validator

/-- The threshold is what is more than two thirds, for every total, and words are wide enough for
it. It is positive, grows with the total and is at most the total of a set with power. So a set with
power has a quorum whenever everyone in it has signed: a commit that is counted, or a handover. -/
theorem threshold_more_than_two_thirds :
    (∀ total signed : Int64,
      quorumThreshold total ≤ signed ↔ 2 * max total.toInt 0 < 3 * signed.toInt) ∧
    (∀ total : Int64, thresholdInWords? total = some (quorumThreshold total)) ∧
    (∀ total : Int64, 1 ≤ quorumThreshold total) ∧
    (∀ total total' : Int64, total ≤ total' → quorumThreshold total ≤ quorumThreshold total') ∧
    (∀ f : Finality, f.hasQuorum = true ↔ 2 * max f.totalPower.toInt 0 < 3 * f.signedPower.toInt) ∧
    ∀ (validators : List Validator) (total : Int64),
      totalPower? validators = some total → 0 < total →
      quorumThreshold total ≤ total ∧
      (∀ (isValid : Validator → Precommit → Bool) (precommits : List Precommit),
        signatories validators isValid precommits = validators →
          (Tally.count validators isValid total precommits).hasQuorum = true) ∧
      ∀ (algorithm : HashAlgorithm) (h : Handover), h.oldSet = validators →
        h.signatures.length = validators.length → h.signatories algorithm = validators →
          ∃ signed, h.verify algorithm = .ok signed := by
  refine ⟨quorumThreshold_le, thresholdInWords?_eq, one_le_quorumThreshold,
    fun total total' => quorumThreshold_mono, Finality.hasQuorum_iff, ?_⟩
  intro validators total found pos
  have power := powerSum_pos found pos
  obtain ⟨bounded, whole⟩ := totalPower?_eq_some.1 found
  refine ⟨quorumThreshold_le_self pos, ?_, ?_⟩
  · intro isValid precommits everyone
    rw [Tally.hasQuorum_count bounded whole, everyone]
    omega
  · rintro algorithm h rfl slots everyone
    rw [Handover.verify_eq_ok slots bounded, everyone]
    omega

open Session.Sample in
/-- Of 300 a power of 200 is not enough and 201 is. The only validator signs and has a quorum, for a
commit and for a handover. -/
theorem threshold_of_unanimous :
    ¬ quorumThreshold 300 ≤ 200 ∧ quorumThreshold 300 ≤ 201 ∧
    thresholdInWords? Int64.maxValue = some (quorumThreshold Int64.maxValue) ∧
    totalPower? [validator] = some 1 ∧ (0 : Int64) < 1 ∧ quorumThreshold 1 ≤ 1 ∧
    signatories [validator] (Commit.isSignedBy block 1 0) [⟨[], signature, 0⟩] = [validator] ∧
    (Tally.count [validator] (Commit.isSignedBy block 1 0) 1 [⟨[], signature, 0⟩]).hasQuorum =
      true ∧
    ∃ signed, joins.verify .sha256 = .ok signed := by
  obtain ⟨exactly, words, -, -, -, unanimous⟩ := threshold_more_than_two_thirds
  have found : totalPower? [validator] = some 1 := by decide
  have pos : (0 : Int64) < 1 := by decide
  have votes : signatories [validator] (Commit.isSignedBy block 1 0) [⟨[], signature, 0⟩] =
      [validator] :=
    signatories_eq_self.2 ⟨by decide, List.forall_mem_singleton.2 (by decide +kernel)⟩
  have hands : joins.signatories .sha256 = [validator] := by decide +kernel
  obtain ⟨bounded, commits, handovers⟩ := unanimous [validator] 1 found pos
  exact ⟨mt (exactly 300 200).1 (by decide), (exactly 300 201).2 (by decide), words _,
    found, pos, bounded, votes, commits _ _ votes, handovers .sha256 joins rfl rfl hands⟩

end Validator

end LightClient
