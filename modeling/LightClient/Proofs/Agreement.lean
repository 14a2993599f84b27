import LightClient.Proofs.Causes
import LightClient.Proofs.Descent
import LightClient.Proofs.Sample
import LightClient.Proofs.Verdicts

/-!
# Checks and what is told of them

Whether a block is final and whether a validator set descends from the genesis is told in several
ways: as the result of a check, as a finding of the layer, and for the walk from genesis also as yes
or no. They never disagree. One failure, that of a validator set which is not the expected one,
stands for two things: that the walk ended at another set, which is a plain no, and that a handover
on the way starts from another set, which is a failure of the walk. Its height tells them apart.
-/
namespace LightClient
open Validator

namespace Layer

/-- A finding tells what a check has come to. -/
def Tells {α : Type} (layer : Layer) (result : Except Failure α) (x : Finding) : Prop :=
  match result with
  | .ok _ => layer.Passes x
  | .error f => layer.Fails f x

theorem Tells.valid_iff {α : Type} {layer : Layer} {result : Except Failure α} {x : Finding}
    (tells : layer.Tells result x) : x.valid = true ↔ ∃ a, result = .ok a := by
  cases result with
  | ok a => exact iff_of_true tells.valid ⟨a, rfl⟩
  | error f =>
    refine iff_of_false (fun valid => ?_) nofun
    rw [tells.valid] at valid
    cases valid

end Layer

/-- The finding of the layer tells what the check of a commit comes to, and with which proof. -/
theorem Commit.verify_tells (block : Block) (commit : Commit) (validators : List Validator) :
    Layer.blockSignatures.Tells (check block commit validators) (verify block commit validators).1 ∧
      (verify block commit validators).2 = (check block commit validators).toOption.map (·.1) := by
  cases checked : check block commit validators with
  | ok passed =>
    obtain ⟨finality, t⟩ := passed
    exact verify_of_ok checked
  | error f => exact verify_of_error checked

theorem Commit.verify_iff_check {block : Block} {commit : Commit} {validators : List Validator}
    {finality : Finality} :
    (verify block commit validators).1.valid = true ∧
        (verify block commit validators).2 = some finality ↔
      ∃ t, check block commit validators = .ok (finality, t) := by
  obtain ⟨tells, proof⟩ := verify_tells block commit validators
  rw [tells.valid_iff, proof]
  constructor
  · intro h
    obtain ⟨⟨⟨_, t⟩, passed⟩, told⟩ := h
    rw [passed] at told ⊢
    obtain rfl := Option.some.inj told
    exact ⟨t, rfl⟩
  · intro h
    obtain ⟨t, passed⟩ := h
    rw [passed]
    exact ⟨⟨_, rfl⟩, rfl⟩

namespace Handover
variable {algorithm : HashAlgorithm} {handovers : List Handover} {height : Int64}

/-- All handovers are well-formed, end by a height and follow each other, so that only their sets
and signatures are left to be looked at. -/
structure Orderly (height : Int64) (handovers : List Handover) : Prop where
  forms : checkForms handovers = .ok ()
  within : checkWithin height handovers = .ok ()
  path : ∃ path, heightPath handovers height = .ok path

/-- The first handovers lead from a set at a height to one that the next handover does not start
from. This one starts at height `k`. -/
def StraysAt (algorithm : HashAlgorithm) (set : List Validator) (height : Int64)
    (handovers : List Handover) (k : Int64) : Prop :=
  ∃ taken h rest final reached, handovers = taken ++ h :: rest ∧
    Chain algorithm set height taken final reached ∧ h.oldSet ≠ final ∧ h.fromHeight = k

theorem straysAt_cons {set : List Validator} {start k : Int64} {h : Handover}
    {rest : List Handover} :
    StraysAt algorithm set start (h :: rest) k ↔ h.oldSet ≠ set ∧ h.fromHeight = k ∨
      h.oldSet = set ∧ h.fromHeight = start ∧ h.Admitted algorithm ∧
        StraysAt algorithm h.newSet h.toHeight rest k := by
  constructor
  · intro strays
    obtain ⟨taken, stray, tail, final, reached, split, chain, other, at_⟩ := strays
    cases chain with
    | done =>
      obtain ⟨rfl, -⟩ := List.cons.inj split
      exact .inl ⟨other, at_⟩
    | next admitted starts same chain =>
      obtain ⟨rfl, rfl⟩ := List.cons.inj split
      exact .inr ⟨same, starts, admitted, _, stray, tail, final, reached, rfl, chain, other, at_⟩
  · intro h
    rcases h with ⟨other, at_⟩ | ⟨same, starts, admitted, strays⟩
    · exact ⟨[], _, rest, set, start, rfl, .done set start, other, at_⟩
    · obtain ⟨taken, stray, tail, final, reached, rfl, chain, other, at_⟩ := strays
      exact ⟨_ :: taken, stray, tail, final, reached, rfl, .next admitted starts same chain, other,
        at_⟩

theorem checkFormsFrom_ne_violation (index : Nat) (previous : Option Int64)
    (handovers : List Handover) (v : Violation) :
    checkFormsFrom index previous handovers ≠ .error (.violation v) := by
  induction handovers generalizing index previous with
  | nil =>
    intro refused
    cases refused
  | cons h rest ih =>
    rw [checkFormsFrom]
    cases h.formError? previous with
    | none => exact ih _ _
    | some reason =>
      intro refused
      cases refused

theorem checkWithin_ne_violation (height : Int64) (handovers : List Handover) (v : Violation) :
    checkWithin height handovers ≠ .error (.violation v) := by
  unfold checkWithin
  split <;> exact nofun

theorem heightPath_ne_violation (height : Int64) (handovers : List Handover) (v : Violation) :
    heightPath handovers height ≠ .error (.violation v) := by
  intro h
  have kind := heightPath_within _ _ _ h
  simp [Failure.kind] at kind

theorem verify_ne_mismatch (h : Handover) (k : Int64) :
    h.verify algorithm ≠ .error (.violation (.validatorSetMismatch k)) := by
  unfold verify
  split
  · exact nofun
  · dsimp only
    split <;> exact nofun

/-- In form, a handover ends later than it starts. -/
theorem advances_of_forms {index : Nat} {previous : Option Int64}
    (forms : checkFormsFrom index previous handovers = .ok ()) :
    ∀ h ∈ handovers, h.fromHeight < h.toHeight := by
  induction handovers generalizing index previous with
  | nil => exact nofun
  | cons h rest ih =>
    obtain ⟨form, forms⟩ := checkFormsFrom_cons.1 forms
    obtain ⟨-, -, -, -, advances, -⟩ := formError?_eq_none.1 form
    exact List.forall_mem_cons.2 ⟨advances, ih forms⟩

/-- A stray handover starts below the height by which all have ended. -/
theorem StraysAt.lt {set : List Validator} {start k : Int64} (orderly : Orderly height handovers)
    (strays : StraysAt algorithm set start handovers k) : k < height := by
  obtain ⟨taken, h, rest, final, reached, rfl, -, -, rfl⟩ := strays
  have member : h ∈ taken ++ h :: rest := List.mem_append_right _ List.mem_cons_self
  exact Int64.lt_of_lt_of_le (advances_of_forms orderly.forms h member)
    (checkWithin_eq_ok.1 orderly.within h member)

/-- The walk fails for a set exactly at a stray handover. -/
theorem walk_eq_mismatch (index : Nat) (previous : Option Int64) {target last k : Int64}
    {set : List Validator} {path : List Int64}
    (forms : checkFormsFrom index previous handovers = .ok ())
    (within : ∀ h ∈ handovers, h.toHeight ≤ target)
    (heights : pathFrom target last handovers = .ok path) :
    walk algorithm set handovers = .error (.violation (.validatorSetMismatch k)) ↔
      StraysAt algorithm set last handovers k := by
  -- Along the handovers that are taken, the form of each is what a chain asks of it, so the walk
  -- and the chain go on from the same set until one of the handovers starts from another.
  induction handovers generalizing index previous last set path with
  | nil =>
    constructor
    · exact nofun
    · intro strays
      obtain ⟨taken, h, rest, -, -, split, -⟩ := strays
      simp at split
  | cons h rest ih =>
    obtain ⟨form, forms⟩ := checkFormsFrom_cons.1 forms
    obtain ⟨old, new, slots, -, advances, -, oldBounded, newBounded⟩ := formError?_eq_none.1 form
    obtain ⟨first, within⟩ := List.forall_mem_cons.1 within
    obtain ⟨starts, later, heights, -⟩ := (pathFrom_cons first).1 heights
    have onward : walk algorithm h.newSet rest = .error (.violation (.validatorSetMismatch k)) ↔
        StraysAt algorithm h.newSet h.toHeight rest k := ih _ _ forms within heights
    rw [walk, straysAt_cons]
    by_cases outgoing : h.oldSet = set
    · rw [if_neg (fun other => other outgoing), Failure.bind_eq_error]
      constructor
      · intro failed
        rcases failed with unsigned | ⟨signed, agreed, failed⟩
        · exact absurd unsigned (verify_ne_mismatch h k)
        · have quorum := (verify_eq_ok slots oldBounded).1 ⟨signed, agreed⟩
          exact .inr ⟨outgoing, starts, ⟨advances, old, new, oldBounded, newBounded, slots, quorum⟩,
            onward.1 failed⟩
      · intro strays
        rcases strays with ⟨other, -⟩ | ⟨-, -, admitted, strays⟩
        · exact absurd outgoing other
        · obtain ⟨signed, agreed⟩ := (verify_eq_ok slots oldBounded).2 admitted.quorum
          exact .inr ⟨signed, agreed, onward.2 strays⟩
    · rw [if_pos outgoing]
      constructor
      · intro failed
        cases failed
        exact .inl ⟨outgoing, rfl⟩
      · intro strays
        rcases strays with ⟨-, rfl⟩ | ⟨same, -⟩
        · rfl
        · exact absurd same outgoing

end Handover

namespace Genesis
variable {genesis : Genesis} {algorithm : HashAlgorithm} {current : List Validator} {height : Int64}
  {handovers : List Handover}

/-- The walk from the genesis ends, but at another set. -/
inductive LeadsElsewhere (genesis : Genesis) (algorithm : HashAlgorithm) (current : List Validator)
    (height : Int64) (handovers : List Handover) : Prop
  | atStart (start : height ≤ 1) (other : genesis.validators ≠ current)
  | byHandovers {final : List Validator} {reached : Int64} (later : 1 < height)
      (within : reached ≤ height)
      (chain : Handover.Chain algorithm genesis.validators 0 handovers final reached)
      (other : final ≠ current)

theorem trace?_eq_none : genesis.trace? algorithm current height handovers = .ok none ↔
    genesis.LeadsElsewhere algorithm current height handovers := by
  by_cases start : height ≤ 1
  · unfold trace?
    rw [if_pos start]
    constructor
    · intro h
      refine .atStart start fun same => ?_
      rw [if_pos same.symm] at h
      cases h
    · intro h
      cases h with
      | atStart _ other => rw [if_neg fun same => other same.symm]
      | byHandovers later => exact absurd start (Int64.not_le.2 later)
  · have later : 1 < height := Int64.not_le.1 start
    rw [trace?_eq_ok later]
    constructor
    · intro h
      obtain ⟨final, reached, within, chain, none⟩ := h
      refine .byHandovers later within chain fun same => ?_
      rw [if_pos same] at none
      cases none
    · intro h
      cases h with
      | atStart low => exact absurd low start
      | byHandovers _ within chain other => exact ⟨_, _, within, chain, (if_neg other).symm⟩

/-- No walk before height two fails, and later on one only fails for a set where a handover
strays. -/
theorem trace?_eq_mismatch {k : Int64} :
    genesis.trace? algorithm current height handovers =
        .error (.violation (.validatorSetMismatch k)) ↔
      1 < height ∧ Handover.Orderly height handovers ∧
        Handover.StraysAt algorithm genesis.validators 0 handovers k := by
  by_cases start : height ≤ 1
  · unfold trace?
    rw [if_pos start]
    exact ⟨nofun, fun h => absurd start (Int64.not_le.2 h.1)⟩
  · have later : 1 < height := Int64.not_le.1 start
    unfold trace?
    rw [if_neg start]
    constructor
    · intro h
      rcases Failure.bind_eq_error.1 h with malformed | ⟨_, forms, h⟩
      · exact absurd malformed (Handover.checkFormsFrom_ne_violation _ _ _ _)
      rcases Failure.bind_eq_error.1 h with beyond | ⟨_, within, h⟩
      · exact absurd beyond (Handover.checkWithin_ne_violation _ _ _)
      rcases Failure.bind_eq_error.1 h with gap | ⟨path, heights, h⟩
      · exact absurd gap (Handover.heightPath_ne_violation _ _ _)
      obtain ⟨onward, steps, -⟩ := (heightPath_eq_ok later).1 heights
      rcases Failure.bind_eq_error.1 h with strays | ⟨final, -, done⟩
      · exact ⟨later, ⟨forms, within, path, heights⟩, (Handover.walk_eq_mismatch _ _ forms
          (Handover.checkWithin_eq_ok.1 within) steps).1 strays⟩
      · cases done
    · intro h
      obtain ⟨-, ⟨forms, within, path, heights⟩, strays⟩ := h
      obtain ⟨onward, steps, -⟩ := (heightPath_eq_ok later).1 heights
      have stopped := (Handover.walk_eq_mismatch _ _ forms
        (Handover.checkWithin_eq_ok.1 within) steps).2 strays
      refine Failure.bind_eq_error.2 (.inr ⟨_, forms, ?_⟩)
      refine Failure.bind_eq_error.2 (.inr ⟨_, within, ?_⟩)
      refine Failure.bind_eq_error.2 (.inr ⟨path, heights, ?_⟩)
      exact Failure.bind_eq_error.2 (.inl stopped)

theorem leadsTo_eq_ok {answer : Bool} :
    genesis.leadsTo algorithm current height handovers = .ok answer ↔
      ∃ trace, genesis.trace? algorithm current height handovers = .ok trace ∧
        trace.isSome = answer := by
  unfold leadsTo
  cases genesis.trace? algorithm current height handovers with
  | error f => simp [Except.map]
  | ok trace => simp [Except.map]

theorem leadsTo_eq_error {f : Failure} :
    genesis.leadsTo algorithm current height handovers = .error f ↔
      genesis.trace? algorithm current height handovers = .error f := by
  unfold leadsTo
  cases genesis.trace? algorithm current height handovers with
  | error cause => simp [Except.map]
  | ok trace => simp [Except.map]

theorem leadsTo_eq_true : genesis.leadsTo algorithm current height handovers = .ok true ↔
    ∃ trace, genesis.check algorithm current height handovers = .ok trace := by
  rw [leadsTo_eq_ok]
  simp only [check_eq_ok, ← trace?_eq_some, Option.isSome_iff_exists]
  constructor
  · intro h
    obtain ⟨_, walked, trace, rfl⟩ := h
    exact ⟨trace, walked⟩
  · intro h
    obtain ⟨trace, walked⟩ := h
    exact ⟨some trace, walked, trace, rfl⟩

theorem leadsTo_eq_false : genesis.leadsTo algorithm current height handovers = .ok false ↔
    genesis.trace? algorithm current height handovers = .ok none := by
  rw [leadsTo_eq_ok]
  constructor
  · intro h
    obtain ⟨trace, walked, absent⟩ := h
    obtain rfl : trace = none := by simpa using absent
    exact walked
  · exact fun walked => ⟨none, walked, rfl⟩

/-- Ending at another set is a failure of the check at the height that is checked. -/
theorem check_eq_error {f : Failure} :
    genesis.check algorithm current height handovers = .error f ↔
      genesis.trace? algorithm current height handovers = .error f ∨
        genesis.trace? algorithm current height handovers = .ok none ∧
          f = .violation (.validatorSetMismatch height) := by
  unfold check
  rw [Failure.bind_eq_error]
  refine or_congr_right ⟨fun h => ?_, fun h => ?_⟩
  · obtain ⟨trace, walked, failed⟩ := h
    cases trace with
    | some trace => cases failed
    | none =>
      cases failed
      exact ⟨walked, rfl⟩
  · obtain ⟨walked, rfl⟩ := h
    exact ⟨none, walked, rfl⟩

/-- No handover strays at the height that is checked. -/
theorem trace?_ne_mismatch : genesis.trace? algorithm current height handovers ≠
    .error (.violation (.validatorSetMismatch height)) := by
  intro h
  obtain ⟨-, orderly, strays⟩ := trace?_eq_mismatch.1 h
  exact Int64.lt_irrefl (strays.lt orderly)

/-- A plain no is the failure at the height that is checked, and no other. -/
theorem leadsTo_eq_false_iff_check :
    genesis.leadsTo algorithm current height handovers = .ok false ↔
    genesis.check algorithm current height handovers =
      .error (.violation (.validatorSetMismatch height)) := by
  rw [leadsTo_eq_false, check_eq_error]
  constructor
  · exact fun ended => .inr ⟨ended, rfl⟩
  · intro failed
    rcases failed with strays | ⟨ended, -⟩
    · exact absurd strays trace?_ne_mismatch
    · exact ended

theorem leadsTo_eq_error_iff_check {f : Failure} :
    genesis.leadsTo algorithm current height handovers = .error f ↔
      genesis.check algorithm current height handovers = .error f ∧
        f ≠ .violation (.validatorSetMismatch height) := by
  rw [leadsTo_eq_error, check_eq_error]
  constructor
  · intro failed
    refine ⟨.inl failed, ?_⟩
    rintro rfl
    exact trace?_ne_mismatch failed
  · intro h
    obtain ⟨failed | ⟨-, same⟩, other⟩ := h
    · exact failed
    · exact absurd same other

theorem leadsTo_eq_mismatch {k : Int64} : genesis.leadsTo algorithm current height handovers =
      .error (.violation (.validatorSetMismatch k)) ↔
    1 < height ∧ k < height ∧ Handover.Orderly height handovers ∧
      Handover.StraysAt algorithm genesis.validators 0 handovers k := by
  rw [leadsTo_eq_error, trace?_eq_mismatch]
  constructor
  · intro h
    obtain ⟨later, orderly, strays⟩ := h
    exact ⟨later, strays.lt orderly, orderly, strays⟩
  · intro h
    obtain ⟨later, -, orderly, strays⟩ := h
    exact ⟨later, orderly, strays⟩

/-- The finding of the last layer tells what the check of the walk comes to. -/
theorem finding_tells : Layer.genesisTrust.Tells (genesis.check algorithm current height handovers)
    (genesis.finding algorithm current height handovers) := by
  unfold finding
  cases genesis.check algorithm current height handovers with
  | ok trace => exact Verifier.finding_passes trace
  | error f => simp [Layer.Tells]

end Genesis

/-- The findings of the two layers tell what their checks come to, and a final block is told with
the proof of the check. Whether the walk from genesis leads to a set is answered with yes exactly if
the check succeeds, with no exactly if it fails at the height that is checked because another set
was reached, and with the failure of the check otherwise. If this is for a set as well, it is one
that a handover does not start from, and the handover starts below the height that is checked. -/
theorem findings_agree_with_checks (block : Block) (commit : Commit) (validators : List Validator)
    (genesis : Genesis) (algorithm : HashAlgorithm) (current : List Validator) (height : Int64)
    (handovers : List Handover) :
    let signed := Commit.check block commit validators
    let layer := Commit.verify block commit validators
    let traced := genesis.check algorithm current height handovers
    let finding := genesis.finding algorithm current height handovers
    let answer := genesis.leadsTo algorithm current height handovers
    (Layer.blockSignatures.Tells signed layer.1 ∧ layer.2 = signed.toOption.map (·.1)) ∧
      (∀ finality, layer.1.valid = true ∧ layer.2 = some finality ↔
        ∃ t, signed = .ok (finality, t)) ∧
      Layer.genesisTrust.Tells traced finding ∧
      (finding.valid = true ↔ ∃ trace, traced = .ok trace) ∧
      (answer = .ok true ↔ ∃ trace, traced = .ok trace) ∧
      (answer = .ok false ↔ traced = .error (.violation (.validatorSetMismatch height))) ∧
      (∀ f, answer = .error f ↔
        traced = .error f ∧ f ≠ .violation (.validatorSetMismatch height)) ∧
      (answer = .ok false ↔ genesis.LeadsElsewhere algorithm current height handovers) ∧
      ∀ k, answer = .error (.violation (.validatorSetMismatch k)) ↔
        1 < height ∧ k < height ∧ Handover.Orderly height handovers ∧
          Handover.StraysAt algorithm genesis.validators 0 handovers k := by
  intro signed layer traced finding answer
  exact ⟨Commit.verify_tells block commit validators, fun _ => Commit.verify_iff_check,
    Genesis.finding_tells, Genesis.finding_tells.valid_iff, Genesis.leadsTo_eq_true,
    Genesis.leadsTo_eq_false_iff_check, fun _ => Genesis.leadsTo_eq_error_iff_check,
    Genesis.leadsTo_eq_false.trans Genesis.trace?_eq_none, fun _ => Genesis.leadsTo_eq_mismatch⟩

open Session.Sample in
/-- Two handovers lead to the heir. That they do not lead to the other validator is no failure of
the walk, but that the second one alone does not start from the genesis is. -/
theorem heir_told_apart :
    origin.leadsTo .sha256 [heir] 6 [joins, remains] = .ok true ∧
    origin.leadsTo .sha256 [validator] 6 [joins, remains] = .ok false ∧
    origin.leadsTo .sha256 [heir] 6 [{ remains with fromHeight := 0 }] =
      .error (.violation (.validatorSetMismatch 0)) := by
  have agree (current : List Validator) (handovers : List Handover) :=
    findings_agree_with_checks block ⟨0, 0, .zero, []⟩ [] origin .sha256 current 6 handovers
  have accepted : (origin.check .sha256 [heir] 6 [joins, remains]).toOption.any
      (fun _ => true) = true := by decide +kernel
  obtain ⟨trace, traced, -⟩ := exists_of_any accepted
  have elsewhere : origin.LeadsElsewhere .sha256 [validator] 6 [joins, remains] := by
    cases Genesis.check_eq_ok.1 traced with
    | atStart start => exact absurd start (by decide)
    | byHandovers later within chain => exact .byHandovers later within chain (by decide)
  have orderly : Handover.Orderly 6 [{ remains with fromHeight := 0 }] :=
    ⟨rfl, rfl, [0, 5], rfl⟩
  refine ⟨?_, ?_, ?_⟩
  · obtain ⟨-, -, -, -, yes, -⟩ := agree [heir] [joins, remains]
    exact yes.2 ⟨trace, traced⟩
  · obtain ⟨-, -, -, -, -, -, -, no, -⟩ := agree [validator] [joins, remains]
    exact no.2 elsewhere
  · obtain ⟨-, -, -, -, -, -, -, -, fails⟩ := agree [heir] [{ remains with fromHeight := 0 }]
    exact (fails 0).2 ⟨by decide, by decide, orderly, [], _, [], _, _, rfl,
      .done _ _, by decide, rfl⟩

end LightClient
