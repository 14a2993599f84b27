import LightClient.Proofs.Descent
import LightClient.Proofs.Sample

/-!
# Derivation of validator sets

The genesis derives its own validators at height zero, and whoever is derived derives the next set
by a handover of its own. So a derivation grows at its end, whereas a chain is followed from its
start; both reach the same sets at the same heights. The last layer accepts a set exactly if the
handovers derive it, and its trace then lists their heights, which ascend.
-/
namespace LightClient

namespace Handover
variable {algorithm : HashAlgorithm} {set final : List Validator} {height reached : Int64}
  {handovers : List Handover}

/-- A chain goes on with a handover of the set that it has come to. -/
theorem Chain.snoc {h : Handover} (chain : Chain algorithm set height handovers final reached)
    (admitted : h.Admitted algorithm) (starts : h.fromHeight = reached)
    (outgoing : h.oldSet = final) :
    Chain algorithm set height (handovers ++ [h]) h.newSet h.toHeight := by
  induction chain with
  | done set height => exact .next admitted starts outgoing (.done h.newSet h.toHeight)
  | next first begins leaves _ ih => exact .next first begins leaves (ih starts outgoing)

theorem Chain.ascending (chain : Chain algorithm set height handovers final reached) :
    (height :: handovers.map (·.toHeight)).Pairwise (· < ·) := by
  induction chain with
  | done set height => exact List.pairwise_singleton _ height
  | @next _ _ height _ h rest admitted starts _ _ ih =>
    have advances : height < h.toHeight := starts ▸ admitted.advances
    refine List.pairwise_cons.2 ⟨fun later member => ?_, ih⟩
    rcases List.mem_cons.1 member with rfl | member
    · exact advances
    · exact Int64.lt_trans advances ((List.pairwise_cons.1 ih).1 later member)

theorem Chain.le_reached_of_mem (chain : Chain algorithm set height handovers final reached) :
    ∀ later ∈ height :: handovers.map (·.toHeight), later ≤ reached := by
  induction chain with
  | done set height => simp
  | next admitted starts outgoing later ih =>
    have low := (Chain.next admitted starts outgoing later).le_reached
    exact List.forall_mem_cons.2 ⟨low, ih⟩

/-- Every handover goes up by at least one, so a chain has no more of them than there are
heights. -/
theorem Chain.length_le (chain : Chain algorithm set height handovers final reached) :
    height.toInt + handovers.length ≤ reached.toInt := by
  induction chain with
  | done set height => simp
  | next admitted starts _ _ ih =>
    have advances := Int64.lt_iff_toInt_lt.1 admitted.advances
    rw [starts] at advances
    rw [List.length_cons]
    omega

end Handover

namespace Genesis

/-- The sets that handovers derive from the validators of a genesis, with the heights they start
at. -/
inductive Derives (genesis : Genesis) (algorithm : HashAlgorithm) :
    List Handover → List Validator → Int64 → Prop
  | start : Derives genesis algorithm [] genesis.validators 0
  | next {handovers : List Handover} {set : List Validator} {height : Int64} {h : Handover}
      (derived : Derives genesis algorithm handovers set height) (admitted : h.Admitted algorithm)
      (starts : h.fromHeight = height) (outgoing : h.oldSet = set) :
      Derives genesis algorithm (handovers ++ [h]) h.newSet h.toHeight

variable {genesis : Genesis} {algorithm : HashAlgorithm}

theorem Derives.append_chain {before after : List Handover} {set final : List Validator}
    {height reached : Int64} (derived : genesis.Derives algorithm before set height)
    (chain : Handover.Chain algorithm set height after final reached) :
    genesis.Derives algorithm (before ++ after) final reached := by
  induction chain generalizing before with
  | done set height => simpa using derived
  | @next _ _ _ _ h rest admitted starts outgoing _ ih =>
    have longer := ih (derived.next admitted starts outgoing)
    rwa [List.append_assoc, List.singleton_append] at longer

theorem derives_iff_chain {handovers : List Handover} {set : List Validator} {height : Int64} :
    genesis.Derives algorithm handovers set height ↔
      Handover.Chain algorithm genesis.validators 0 handovers set height := by
  constructor
  · intro derived
    induction derived with
    | start => exact .done genesis.validators 0
    | next _ admitted starts outgoing ih => exact ih.snoc admitted starts outgoing
  · intro chain
    exact Derives.start.append_chain chain

/-- A walk that was successful beyond the first block has followed a chain. -/
theorem chain_of_check {current : List Validator} {height : Int64} {handovers : List Handover}
    {trace : GenesisTrace} (later : 1 < height)
    (traced : genesis.check algorithm current height handovers = .ok trace) :
    ∃ reached, reached ≤ height ∧
      Handover.Chain algorithm genesis.validators 0 handovers current reached ∧
      trace = ⟨genesis.hash, height, 0 :: handovers.map (·.toHeight),
        UInt64.ofNat handovers.length⟩ := by
  cases check_eq_ok.1 traced with
  | atStart start => exact absurd start (Int64.not_le.2 later)
  | byHandovers _ within chain => exact ⟨_, within, chain, rfl⟩

/-- The number of handovers in a chain from genesis fits the trace. -/
theorem toNat_length_of_chain {set : List Validator} {reached : Int64} {handovers : List Handover}
    (chain : Handover.Chain algorithm genesis.validators 0 handovers set reached) :
    (UInt64.ofNat handovers.length).toNat = handovers.length := by
  have zero : (0 : Int64).toInt = 0 := by decide
  have most : Int64.maxValue.toInt = 9223372036854775807 := by decide
  have bound := Int64.toInt_le reached
  have count := chain.length_le
  apply UInt64.toNat_ofNat_of_lt
  change handovers.length < 18446744073709551616
  omega

/-- Up to the first block the last layer accepts the genesis validators, and after it exactly the
sets that the given handovers derive at or below the height. Its trace then counts all handovers,
and its heights are zero and those that the handovers lead to, which ascend to the height at
most. -/
theorem check_isOk_iff_derives (genesis : Genesis) (algorithm : HashAlgorithm)
    (current : List Validator) (height : Int64) (handovers : List Handover) :
    ((∃ trace, genesis.check algorithm current height handovers = .ok trace) ↔
        (height ≤ 1 ∧ current = genesis.validators) ∨
          (1 < height ∧ ∃ reached, reached ≤ height ∧
            genesis.Derives algorithm handovers current reached)) ∧
      ∀ trace, genesis.check algorithm current height handovers = .ok trace → 1 < height →
        trace.handovers.toNat = handovers.length ∧
        trace.heightPath = 0 :: handovers.map (·.toHeight) ∧
        trace.heightPath.Pairwise (· < ·) ∧ ∀ passed ∈ trace.heightPath, passed ≤ height := by
  constructor
  · simp only [check_eq_ok, derives_iff_chain]
    constructor
    · intro h
      obtain ⟨trace, reaches⟩ := h
      cases reaches with
      | atStart start same => exact .inl ⟨start, same⟩
      | byHandovers later within chain => exact .inr ⟨later, _, within, chain⟩
    · intro h
      rcases h with ⟨start, same⟩ | ⟨later, reached, within, chain⟩
      · exact ⟨_, .atStart start same⟩
      · exact ⟨_, .byHandovers later within chain⟩
  · intro trace traced later
    obtain ⟨reached, within, chain, rfl⟩ := chain_of_check later traced
    refine ⟨toNat_length_of_chain chain, rfl, chain.ascending, fun passed member => ?_⟩
    exact Int64.le_trans (chain.le_reached_of_mem passed member) within

open Session.Sample in
/-- The trace of two handovers, of which the second is signed by one of two members. -/
theorem check_of_joins_remains : ∃ trace,
    origin.check .sha256 [heir] 6 [joins, remains] = .ok trace ∧ (1 : Int64) < 6 ∧
      trace.handovers.toNat = 2 ∧ trace.heightPath = [0, 2, 5] ∧
      trace.heightPath.Pairwise (· < ·) ∧ ∀ passed ∈ trace.heightPath, passed ≤ 6 := by
  have accepted : (origin.check .sha256 [heir] 6 [joins, remains]).toOption.any
      (fun _ => true) = true := by decide +kernel
  obtain ⟨trace, traced, -⟩ := exists_of_any accepted
  have later : (1 : Int64) < 6 := by decide
  exact ⟨trace, traced, later,
    (check_isOk_iff_derives origin .sha256 [heir] 6 [joins, remains]).2 trace traced later⟩

end Genesis

end LightClient
