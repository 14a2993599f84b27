import LightClient.Genesis
import LightClient.Proofs.Inquiry
import LightClient.Proofs.VotingPower

/-!
# Descent from genesis

A validator set descends from the genesis if a chain of handovers leads to it, each of which starts
at the height and with the set where the one before it ended and is signed by more than two thirds
of the outgoing power. The checks go over the handovers in three passes, of form, of heights and of
signatures. Together they accept exactly the chains.
-/
namespace LightClient
open Validator

namespace Handover

/-- The outgoing members whose slot holds their signature of the handover. -/
def signatories (algorithm : HashAlgorithm) (h : Handover) : List Validator :=
  ((h.oldSet.zip h.signatures).filter fun slot =>
    !slot.2.isEmpty && isSignedBy (h.message algorithm) slot.1 slot.2).map (·.1)

/-- A handover to a later height between two sets, signed by a quorum of the outgoing one. -/
structure Admitted (algorithm : HashAlgorithm) (h : Handover) : Prop where
  advances : h.fromHeight < h.toHeight
  oldNonempty : h.oldSet ≠ []
  newNonempty : h.newSet ≠ []
  oldBounded : Bounded h.oldSet
  newBounded : Bounded h.newSet
  slots : h.signatures.length = h.oldSet.length
  quorum : 2 * powerSum h.oldSet < 3 * powerSum (h.signatories algorithm)

/-- Handovers that lead from a set at a height to another set at a later one. -/
inductive Chain (algorithm : HashAlgorithm) :
    List Validator → Int64 → List Handover → List Validator → Int64 → Prop
  | done (set : List Validator) (height : Int64) : Chain algorithm set height [] set height
  | next {set final : List Validator} {height reached : Int64} {h : Handover} {rest : List Handover}
      (admitted : h.Admitted algorithm) (starts : h.fromHeight = height) (outgoing : h.oldSet = set)
      (later : Chain algorithm h.newSet h.toHeight rest final reached) :
      Chain algorithm set height (h :: rest) final reached

/-- A test passes if it finds nothing itself and neither do the tests after it. -/
theorem test_eq_none {faulty : Prop} [Decidable faulty] {reason : String} {rest : Option String} :
    (if faulty then some reason else rest) = none ↔ ¬ faulty ∧ rest = none := by
  by_cases h : faulty <;> simp [h]

theorem powerError?_eq_none {h : Handover} :
    formError?.powerError? h = none ↔ Bounded h.oldSet ∧ Bounded h.newSet := by
  unfold formError?.powerError?
  rw [test_eq_none, ← totalPower?_isSome, ← totalPower?_isSome]
  cases totalPower? h.oldSet <;> cases totalPower? h.newSet <;> simp

theorem formError?_eq_none {previous : Option Int64} {h : Handover} :
    h.formError? previous = none ↔
      h.oldSet ≠ [] ∧ h.newSet ≠ [] ∧ h.signatures.length = h.oldSet.length ∧
        (∃ signature ∈ h.signatures, signature ≠ []) ∧ h.fromHeight < h.toHeight ∧
        (∀ height ∈ previous, height < h.toHeight) ∧ Bounded h.oldSet ∧ Bounded h.newSet := by
  have signed : ¬ h.signatures.all List.isEmpty = true ↔
      ∃ signature ∈ h.signatures, signature ≠ [] := by simp
  unfold formError?
  rw [test_eq_none, test_eq_none, test_eq_none, test_eq_none, signed]
  simp only [List.isEmpty_iff, not_or, Decidable.not_not, Int64.not_le, ne_eq, and_assoc]
  cases previous with
  | none => simp [powerError?_eq_none]
  | some height =>
    dsimp only
    rw [test_eq_none, powerError?_eq_none, Int64.not_le]
    simp

theorem checkFormsFrom_cons {index : Nat} {previous : Option Int64} {h : Handover}
    {rest : List Handover} :
    checkFormsFrom index previous (h :: rest) = .ok () ↔
      h.formError? previous = none ∧
      checkFormsFrom (index + 1) (some h.toHeight) rest = .ok () := by
  rw [checkFormsFrom]
  cases h.formError? previous <;> simp

theorem firstBeyond?_eq_none (index : Nat) {height : Int64} {handovers : List Handover} :
    firstBeyond? height index handovers = none ↔ ∀ h ∈ handovers, h.toHeight ≤ height := by
  induction handovers generalizing index with
  | nil => simp [firstBeyond?]
  | cons h rest ih =>
    rw [firstBeyond?]
    by_cases beyond : height < h.toHeight
    · have : ¬ h.toHeight ≤ height := by simpa using beyond
      simp [beyond, this]
    · have : h.toHeight ≤ height := by simpa using beyond
      simp [beyond, ih, this]

theorem checkWithin_eq_ok {height : Int64} {handovers : List Handover} :
    checkWithin height handovers = .ok () ↔ ∀ h ∈ handovers, h.toHeight ≤ height := by
  rw [← firstBeyond?_eq_none 0]
  unfold checkWithin
  cases firstBeyond? height 0 handovers <;> simp

theorem pathFrom_cons {target last : Int64} {h : Handover} {rest : List Handover}
    {path : List Int64} (within : h.toHeight ≤ target) :
    pathFrom target last (h :: rest) = .ok path ↔
      h.fromHeight = last ∧ ∃ later, pathFrom target h.toHeight rest = .ok later ∧
        path = h.toHeight :: later := by
  have inside : ¬ target < h.toHeight := by simpa using within
  rw [pathFrom]
  by_cases starts : h.fromHeight = last
  · rw [if_neg (fun gap => gap starts), if_neg inside]
    cases pathFrom target h.toHeight rest with
    | error f => simp [Except.map]
    | ok later => simp [Except.map, starts, eq_comm]
  · rw [if_pos starts]
    simp [starts]

theorem walk_cons {algorithm : HashAlgorithm} {trusted final : List Validator} {h : Handover}
    {rest : List Handover} :
    walk algorithm trusted (h :: rest) = .ok final ↔
      h.oldSet = trusted ∧ (∃ signed, h.verify algorithm = .ok signed) ∧
        walk algorithm h.newSet rest = .ok final := by
  rw [walk]
  by_cases outgoing : h.oldSet = trusted
  · rw [if_neg (fun other => other outgoing), Failure.bind_eq_ok]
    simp [outgoing]
  · rw [if_pos outgoing]
    simp [outgoing, throw, throwThe, MonadExceptOf.throw]

theorem signedPower_eq_powerSum {algorithm : HashAlgorithm} {h : Handover}
    (slots : h.signatures.length = h.oldSet.length) (bounded : Bounded h.oldSet) :
    (signedPower (h.message algorithm) (h.oldSet.zip h.signatures)).toInt =
      powerSum (h.signatories algorithm) := by
  have zero : (0 : Int64).toInt = 0 := by decide
  have members : (h.oldSet.zip h.signatures).map (·.1) = h.oldSet :=
    List.map_fst_zip (by omega)
  have one (sum : Int64) (slot : Validator × Bytes) :
      (if slot.2.isEmpty then sum
        else if isSignedBy (h.message algorithm) slot.1 slot.2 then sum + slot.1.power else sum) =
      if !slot.2.isEmpty && isSignedBy (h.message algorithm) slot.1 slot.2 then sum + slot.1.power
        else sum := by
    cases slot.2.isEmpty <;> simp
  have total := toInt_foldl_power (h.oldSet.zip h.signatures) 0 (·.1)
    (fun slot => !slot.2.isEmpty && isSignedBy (h.message algorithm) slot.1 slot.2) (by omega)
    (fun slot hs => bounded.nonneg slot.1 (List.of_mem_zip hs).1)
    (by rw [members, zero]; have := bounded.fits; omega)
  rw [zero, Int.zero_add] at total
  rw [signatories, ← total]
  unfold signedPower
  simp only [one]

theorem verify_eq_ok {algorithm : HashAlgorithm} {h : Handover}
    (slots : h.signatures.length = h.oldSet.length) (bounded : Bounded h.oldSet) :
    (∃ signed, h.verify algorithm = .ok signed) ↔
      2 * powerSum h.oldSet < 3 * powerSum (h.signatories algorithm) := by
  obtain ⟨total, found⟩ := Option.isSome_iff_exists.1 (totalPower?_isSome.2 bounded)
  have whole := (totalPower?_eq_some.1 found).2
  have low := powerSum_nonneg bounded.nonneg
  have threshold := quorumThreshold_le total
    (signedPower (h.message algorithm) (h.oldSet.zip h.signatures))
  rw [signedPower_eq_powerSum slots bounded, whole, Int.max_eq_left low] at threshold
  rw [← threshold]
  unfold verify
  rw [found]
  dsimp only
  split
  · rename_i short
    have : ¬ quorumThreshold total ≤
        signedPower (h.message algorithm) (h.oldSet.zip h.signatures) := by simpa using short
    simp [this]
  · rename_i enough
    have : quorumThreshold total ≤
        signedPower (h.message algorithm) (h.oldSet.zip h.signatures) := by simpa using enough
    simp [this]

/-- A quorum needs a signature. -/
theorem Admitted.signed {algorithm : HashAlgorithm} {h : Handover}
    (admitted : h.Admitted algorithm) :
    ∃ signature ∈ h.signatures, signature ≠ [] := by
  have low := powerSum_nonneg admitted.oldBounded.nonneg
  have quorum := admitted.quorum
  cases signers : h.signatories algorithm with
  | nil =>
    rw [signers, powerSum_nil] at quorum
    omega
  | cons v rest =>
    have member : v ∈ h.signatories algorithm := by simp [signers]
    obtain ⟨⟨w, signature⟩, slot, -⟩ := List.mem_map.1 member
    obtain ⟨slot, passes⟩ := List.mem_filter.1 slot
    simp only [Bool.and_eq_true, Bool.not_eq_true', List.isEmpty_eq_false_iff] at passes
    exact ⟨signature, (List.of_mem_zip slot).2, passes.1⟩

theorem Chain.le_reached {algorithm : HashAlgorithm} {set final : List Validator}
    {height reached : Int64} {handovers : List Handover}
    (chain : Chain algorithm set height handovers final reached) : height ≤ reached := by
  induction chain with
  | done set height => exact Int64.le_refl height
  | next admitted starts _ _ ih =>
    exact starts ▸ Int64.le_trans (Int64.le_of_lt admitted.advances) ih

/-- The three passes over handovers that start at a height which is not beyond the target. -/
theorem passes_iff_chain (index : Nat) (previous : Option Int64) {algorithm : HashAlgorithm}
    {target last : Int64} {set final : List Validator} {handovers : List Handover}
    {path : List Int64} (ends : ∀ height ∈ previous, height = last) (within : last ≤ target) :
    (checkFormsFrom index previous handovers = .ok () ∧ (∀ h ∈ handovers, h.toHeight ≤ target) ∧
        pathFrom target last handovers = .ok path ∧ walk algorithm set handovers = .ok final) ↔
      path = handovers.map (·.toHeight) ∧
        ∃ reached, reached ≤ target ∧ Chain algorithm set last handovers final reached := by
  -- The form of a handover is checked against the end of the one before it, the path against the
  -- height it has come to. Along a chain these are the same (`ends`), but at the start only the
  -- second is there.
  induction handovers generalizing index previous last set path with
  | nil =>
    simp only [checkFormsFrom, pathFrom, walk, List.map_nil]
    constructor
    · intro h
      obtain ⟨-, -, none, same⟩ := h
      obtain rfl := Except.ok.inj none
      obtain rfl := Except.ok.inj same
      exact ⟨rfl, last, within, .done set last⟩
    · intro h
      obtain ⟨rfl, reached, -, chain⟩ := h
      cases chain
      exact ⟨trivial, by simp, rfl, rfl⟩
  | cons h rest ih =>
    constructor
    · intro h
      obtain ⟨forms, inside, heights, signatures⟩ := h
      obtain ⟨form, forms⟩ := checkFormsFrom_cons.1 forms
      obtain ⟨old, new, slots, -, advances, -, oldBounded, newBounded⟩ := formError?_eq_none.1 form
      obtain ⟨first, inside⟩ := List.forall_mem_cons.1 inside
      obtain ⟨starts, later, onward, rfl⟩ := (pathFrom_cons first).1 heights
      obtain ⟨outgoing, agreed, signatures⟩ := walk_cons.1 signatures
      have quorum := (verify_eq_ok slots oldBounded).1 agreed
      obtain ⟨rfl, reached, low, chain⟩ :=
        (ih _ _ (by simp) first).1 ⟨forms, inside, onward, signatures⟩
      exact ⟨rfl, reached, low,
        .next ⟨advances, old, new, oldBounded, newBounded, slots, quorum⟩ starts outgoing chain⟩
    · intro h
      obtain ⟨rfl, reached, low, chain⟩ := h
      cases chain with
      | next admitted starts outgoing later =>
        have first : h.toHeight ≤ target := Int64.le_trans later.le_reached low
        obtain ⟨forms, inside, heights, signatures⟩ :=
          (ih (index + 1) (some h.toHeight) (by simp) first).2
            ⟨rfl, reached, low, later⟩
        have form : h.formError? previous = none := by
          refine formError?_eq_none.2 ⟨admitted.oldNonempty, admitted.newNonempty, admitted.slots,
            admitted.signed, admitted.advances, ?_, admitted.oldBounded, admitted.newBounded⟩
          intro height found
          rw [ends height found, ← starts]
          exact admitted.advances
        exact ⟨checkFormsFrom_cons.2 ⟨form, forms⟩, List.forall_mem_cons.2 ⟨first, inside⟩,
          (pathFrom_cons first).2 ⟨starts, _, heights, rfl⟩,
          walk_cons.2
            ⟨outgoing, (verify_eq_ok admitted.slots admitted.oldBounded).2 admitted.quorum,
            signatures⟩⟩

end Handover

namespace Genesis

/-- Handovers lead from the genesis to a set at a height, and this is recorded as a trace. -/
inductive Reaches (genesis : Genesis) (algorithm : HashAlgorithm) (current : List Validator)
    (height : Int64) (handovers : List Handover) : GenesisTrace → Prop
  | atStart (start : height ≤ 1) (same : current = genesis.validators) :
      Reaches genesis algorithm current height handovers ⟨genesis.hash, height, [0], 0⟩
  | byHandovers {reached : Int64} (later : 1 < height) (within : reached ≤ height)
      (chain : Handover.Chain algorithm genesis.validators 0 handovers current reached) :
      Reaches genesis algorithm current height handovers
        ⟨genesis.hash, height, 0 :: handovers.map (·.toHeight), UInt64.ofNat handovers.length⟩

variable {genesis : Genesis} {algorithm : HashAlgorithm} {current : List Validator} {height : Int64}
  {handovers : List Handover} {trace : GenesisTrace}

theorem zero_le_of_later (later : 1 < height) : 0 ≤ height := by
  rw [Int64.lt_iff_toInt_lt] at later
  rw [Int64.le_iff_toInt_le]
  have one : (1 : Int64).toInt = 1 := by decide
  have zero : (0 : Int64).toInt = 0 := by decide
  omega

theorem heightPath_eq_ok {path : List Int64} (later : 1 < height) :
    Handover.heightPath handovers height = .ok path ↔
      ∃ onward, Handover.pathFrom height 0 handovers = .ok onward ∧ path = 0 :: onward := by
  have positive : ¬ height < 0 := Int64.not_lt.2 (zero_le_of_later later)
  unfold Handover.heightPath
  rw [if_neg positive]
  cases Handover.pathFrom height 0 handovers with
  | error f => simp [Except.map]
  | ok onward => simp [Except.map, eq_comm]

/-- Up to the first block only the genesis validators themselves are traced. -/
theorem trace?_of_start (start : height ≤ 1) :
    genesis.trace? algorithm current height handovers = .ok (some trace) ↔
      current = genesis.validators ∧ trace = ⟨genesis.hash, height, [0], 0⟩ := by
  unfold trace?
  rw [if_pos start]
  constructor
  · intro h
    have found := Except.ok.inj h
    split at found
    · rename_i same
      exact ⟨same, (Option.some.inj found).symm⟩
    · cases found
  · intro h
    obtain ⟨same, rfl⟩ := h
    rw [if_pos same]

/-- After it the handovers have to be a chain, and there is a trace if it leads to the set that is
traced. -/
theorem trace?_eq_ok (later : 1 < height) {result : Option GenesisTrace} :
    genesis.trace? algorithm current height handovers = .ok result ↔
      ∃ final reached, reached ≤ height ∧
        Handover.Chain algorithm genesis.validators 0 handovers final reached ∧
        result = if final = current then
          some ⟨genesis.hash, height, 0 :: handovers.map (·.toHeight),
            UInt64.ofNat handovers.length⟩ else none := by
  have beyond : ¬ height ≤ 1 := Int64.not_le.2 later
  have within := zero_le_of_later later
  unfold trace?
  rw [if_neg beyond, Failure.check_bind_eq_ok, Failure.check_bind_eq_ok, Failure.bind_eq_ok,
    Handover.checkWithin_eq_ok]
  constructor
  · intro h
    obtain ⟨forms, inside, path, heights, h⟩ := h
    obtain ⟨final, signatures, h⟩ := Failure.bind_eq_ok.1 h
    obtain ⟨onward, steps, rfl⟩ := (heightPath_eq_ok later).1 heights
    obtain ⟨rfl, reached, low, chain⟩ :=
      (Handover.passes_iff_chain _ _ (by simp) within).1 ⟨forms, inside, steps, signatures⟩
    exact ⟨final, reached, low, chain, (Except.ok.inj h).symm⟩
  · intro h
    obtain ⟨final, reached, low, chain, rfl⟩ := h
    obtain ⟨forms, inside, heights, signatures⟩ :=
      (Handover.passes_iff_chain 0 none (by simp) within).2 ⟨rfl, reached, low, chain⟩
    exact ⟨forms, inside, _, (heightPath_eq_ok later).2 ⟨_, heights, rfl⟩,
      Failure.bind_eq_ok.2 ⟨final, signatures, rfl⟩⟩

theorem trace?_of_later (later : 1 < height) :
    genesis.trace? algorithm current height handovers = .ok (some trace) ↔
      ∃ reached, reached ≤ height ∧
        Handover.Chain algorithm genesis.validators 0 handovers current reached ∧
        trace = ⟨genesis.hash, height, 0 :: handovers.map (·.toHeight),
          UInt64.ofNat handovers.length⟩ := by
  rw [trace?_eq_ok later]
  constructor
  · intro h
    obtain ⟨final, reached, low, chain, found⟩ := h
    split at found
    · rename_i same
      exact ⟨reached, low, same ▸ chain, Option.some.inj found⟩
    · cases found
  · intro h
    obtain ⟨reached, low, chain, rfl⟩ := h
    exact ⟨current, reached, low, chain, (if_pos rfl).symm⟩

theorem trace?_eq_some :
    genesis.trace? algorithm current height handovers = .ok (some trace) ↔
      genesis.Reaches algorithm current height handovers trace := by
  by_cases start : height ≤ 1
  · rw [trace?_of_start start]
    constructor
    · intro h
      obtain ⟨same, rfl⟩ := h
      exact .atStart start same
    · intro h
      cases h with
      | atStart _ same => exact ⟨same, rfl⟩
      | byHandovers later => exact absurd start (Int64.not_le.2 later)
  · have later : 1 < height := Int64.not_le.1 start
    rw [trace?_of_later later]
    constructor
    · intro h
      obtain ⟨reached, low, chain, rfl⟩ := h
      exact .byHandovers later low chain
    · intro h
      cases h with
      | atStart low => exact absurd low start
      | byHandovers _ low chain => exact ⟨_, low, chain, rfl⟩

/-- The check of the last layer succeeds exactly for sets that descend from the genesis. -/
theorem check_eq_ok :
    genesis.check algorithm current height handovers = .ok trace ↔
      genesis.Reaches algorithm current height handovers trace := by
  rw [← trace?_eq_some]
  unfold check
  rw [Failure.bind_eq_ok]
  constructor
  · intro h
    obtain ⟨found, walked, h⟩ := h
    cases found with
    | none => cases h
    | some other =>
      obtain rfl := Except.ok.inj h
      exact walked
  · exact fun walked => ⟨some trace, walked, rfl⟩

/-- Handovers lead from the validators of a genesis to any set that descends from it. -/
theorem Reaches.chain (h : genesis.Reaches algorithm current height handovers trace) :
    ∃ taken reached, Handover.Chain algorithm genesis.validators 0 taken current reached := by
  cases h with
  | atStart start same => exact ⟨[], 0, same ▸ .done current 0⟩
  | byHandovers later within chain => exact ⟨handovers, _, chain⟩

end Genesis

end LightClient
