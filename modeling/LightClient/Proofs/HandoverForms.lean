import LightClient.Proofs.Descent
import LightClient.Proofs.Sample
import Mathlib.Order.Bounds.Basic

/-!
# The form of handovers

Before any signature is looked at, the form of all handovers is checked, each against the height
that the one before it ends at. The check accepts exactly the lists in which every handover is well
formed at its place, and of a list that it refuses it names the first place where one is not.
-/
namespace LightClient.Handover
open Validator

/-- What the form of a handover requires that follows one to the height `previous`. -/
structure WellFormed (previous : Option Int64) (h : Handover) : Prop where
  oldNonempty : h.oldSet ≠ []
  newNonempty : h.newSet ≠ []
  oldBounded : Bounded h.oldSet
  newBounded : Bounded h.newSet
  slots : h.signatures.length = h.oldSet.length
  signed : ∃ signature ∈ h.signatures, signature ≠ []
  advances : h.fromHeight < h.toHeight
  ascends : ∀ height ∈ previous, height < h.toHeight

theorem wellFormed_iff {previous : Option Int64} {h : Handover} :
    WellFormed previous h ↔ h.formError? previous = none := by
  rw [formError?_eq_none]
  constructor
  · intro form
    exact ⟨form.oldNonempty, form.newNonempty, form.slots, form.signed, form.advances, form.ascends,
      form.oldBounded, form.newBounded⟩
  · intro found
    obtain ⟨old, new, slots, signed, advances, ascends, oldBounded, newBounded⟩ := found
    exact ⟨old, new, oldBounded, newBounded, slots, signed, advances, ascends⟩

/-- The height that the handover before a position ends at, if there is one. Before the first of the
handovers it is `previous`. -/
def endBefore (previous : Option Int64) (handovers : List Handover) (i : Nat) : Option Int64 :=
  ((handovers.take i).getLast?.map (·.toHeight)).or previous

/-- The handover at a position, if there is one, is well formed after the one before it. -/
def WellFormedAt (previous : Option Int64) (handovers : List Handover) (i : Nat) : Prop :=
  ∀ h ∈ handovers[i]?, WellFormed (endBefore previous handovers i) h

section
variable {previous : Option Int64} {h : Handover} {rest : List Handover}

theorem wellFormedAt_zero : WellFormedAt previous (h :: rest) 0 ↔ WellFormed previous h := by
  simp [WellFormedAt, endBefore]

theorem wellFormedAt_succ (i : Nat) :
    WellFormedAt previous (h :: rest) (i + 1) ↔ WellFormedAt (some h.toHeight) rest i := by
  have before : endBefore previous (h :: rest) (i + 1) = endBefore (some h.toHeight) rest i := by
    unfold endBefore
    rw [List.take_succ_cons, List.getLast?_cons]
    cases (rest.take i).getLast? <;> rfl
  unfold WellFormedAt
  rw [before, List.getElem?_cons_succ]

/-- The check goes on as long as the form is right and stops where it is not. -/
theorem checkFormsFrom_cases (start : Nat) (previous : Option Int64) (handovers : List Handover) :
    (checkFormsFrom start previous handovers = .ok () ∧ ∀ i, WellFormedAt previous handovers i) ∨
    ∃ i reason,
      checkFormsFrom start previous handovers = .error (.malformedTransition (start + i) reason) ∧
      ¬ WellFormedAt previous handovers i ∧ ∀ j < i, WellFormedAt previous handovers j := by
  induction handovers generalizing start previous with
  | nil => exact .inl ⟨rfl, fun i => by simp [WellFormedAt]⟩
  | cons h rest ih =>
    rw [checkFormsFrom]
    cases found : h.formError? previous with
    | some reason =>
      refine .inr ⟨0, reason, rfl, ?_, fun j early => absurd early (Nat.not_lt_zero j)⟩
      rw [wellFormedAt_zero, wellFormed_iff, found]
      intro none
      cases none
    | none =>
      have first : WellFormedAt previous (h :: rest) 0 :=
        wellFormedAt_zero.2 (wellFormed_iff.2 found)
      rcases ih (start + 1) (some h.toHeight) with ⟨passed, all⟩ |
          ⟨i, reason, failed, flawed, least⟩
      · refine .inl ⟨passed, fun i => ?_⟩
        cases i with
        | zero => exact first
        | succ i => exact (wellFormedAt_succ i).2 (all i)
      · refine .inr ⟨i + 1, reason, ?_, ?_, fun j early => ?_⟩
        · rw [show start + (i + 1) = start + 1 + i by omega]
          exact failed
        · rwa [wellFormedAt_succ]
        · cases j with
          | zero => exact first
          | succ j => exact (wellFormedAt_succ j).2 (least j (by omega))

end

/-- The check of form accepts a list of handovers if and only if each is well formed after the one
before it. Otherwise it tells a malformed handover, and the index that it gives is the least at
which one is not well formed. -/
theorem checkForms_tells_first_flaw (handovers : List Handover) :
    (checkForms handovers = .ok () ↔ ∀ i, WellFormedAt none handovers i) ∧
    (∀ index, (∃ reason, checkForms handovers = .error (.malformedTransition index reason)) ↔
      IsLeast {i | ¬ WellFormedAt none handovers i} index) ∧
    (checkForms handovers = .ok () ∨
      ∃ index reason, checkForms handovers = .error (.malformedTransition index reason)) := by
  rcases checkFormsFrom_cases 0 none handovers with
    ⟨passed, all⟩ | ⟨i, reason, failed, flawed, least⟩
  · change checkForms handovers = _ at passed
    refine ⟨⟨fun _ => all, fun _ => passed⟩, fun index => ⟨fun told => ?_, fun least => ?_⟩,
      .inl passed⟩
    · obtain ⟨reason, failed⟩ := told
      rw [passed] at failed
      cases failed
    · exact absurd (all index) least.1
  · rw [Nat.zero_add] at failed
    change checkForms handovers = _ at failed
    have first : IsLeast {i | ¬ WellFormedAt none handovers i} i :=
      ⟨flawed, fun j other => Nat.le_of_not_lt fun early => other (least j early)⟩
    refine ⟨⟨fun passed => ?_, fun all => absurd (all i) flawed⟩,
      fun index => ⟨fun told => ?_, fun least => ?_⟩, .inr ⟨i, reason, failed⟩⟩
    · rw [passed] at failed
      cases failed
    · obtain ⟨reason', failed'⟩ := told
      rw [failed] at failed'
      cases failed'
      exact first
    · obtain rfl := first.unique least
      exact ⟨reason, failed⟩

open Session.Sample in
/-- The second handover lacks signatures and the third ends too early. -/
example : checkForms [returns, { remains with signatures := [[], []] }, remains] =
    .error (.malformedTransition 1 "no signatures") := rfl

end LightClient.Handover
