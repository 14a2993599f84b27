import LightClient.Proofs.Verdicts
import Mathlib.Data.List.Forall2
import Mathlib.Tactic.IntervalCases

/-!
# Reports tell one story

A run of the layers stops at the first one that fails or completes all five. Flags are set along the
way and findings are recorded separately; here they are shown to agree, so that the level of trust,
the evidence, the times and the errors of a report all follow from its findings.
-/
namespace LightClient

/-- The layers that run before a layer. -/
def Layer.before (layer : Layer) : List Layer := all.takeWhile (· ≠ layer)

theorem Layer.all_eq (layer : Layer) : all = layer.before ++ layer :: layer.after := by
  cases layer <;> rfl

theorem Layer.name_injective {a b : Layer} (h : a.name = b.name) : a = b := by
  cases a <;> cases b <;> first | rfl | simp [name] at h

theorem Layer.map_layer_of_passes {held : List Layer} {passed : List Finding}
    (h : List.Forall₂ Layer.Passes held passed) : passed.map (·.layer) = held.map Layer.name := by
  induction h with
  | nil => rfl
  | cons first _ ih => rw [List.map_cons, List.map_cons, first.layer, ih]

theorem Layer.passes_of_mem {held : List Layer} {passed : List Finding}
    (h : List.Forall₂ Layer.Passes held passed) : ∀ x ∈ passed, ∃ layer, Layer.Passes layer x := by
  induction h with
  | nil => simp
  | cons first _ ih => exact List.forall_mem_cons.2 ⟨⟨_, first⟩, ih⟩

/-- The course of the layers that a report tells: some hold, then one may have failed, and the
others were skipped. All else in the report follows from that. -/
structure Report.Course (r : Report) (held : List Finding) (failed : Option Finding)
    (skipped : List Finding) : Prop where
  findings : r.findings = held ++ failed.toList ++ skipped
  layers : r.findings.map (·.layer) = Layer.all.map Layer.name
  hold : ∀ x ∈ held, x.valid = true ∧ x.isSkipped = false ∧ x.errorKind = none
  fails : ∀ x ∈ failed, x.valid = false ∧ x.isSkipped = false
  rest : ∀ x ∈ skipped, x.valid = false ∧ x.isSkipped = true ∧ x.errorKind = none
  full : r.trustLevel = .full ↔ held.length = 5
  partialBvn : r.trustLevel = .partialBvn ↔ held.length = 3 ∨ held.length = 4
  partialBpt : r.trustLevel = .partialBpt ↔ held.length = 1 ∨ held.length = 2
  untrusted : r.trustLevel = .none ↔ held.length = 0
  verified : r.verified = true ↔ r.trustLevel = .full
  finality : r.finality.isSome = true ↔ ∃ x ∈ held, x.layer = Layer.blockSignatures.name
  inclusion : (∃ x ∈ held, x.layer = Layer.entryInclusion.name) → r.inclusion.isSome = true
  timed : ∀ name, name ∈ r.timing.layerMicros.keys ↔
    ∃ x ∈ r.findings, x.layer = name ∧ x.isSkipped = false
  /-- The errors are the layer that failed, with its message, or nothing. -/
  errors : r.errors.map (fun error => (error.1, some error.2)) =
    failed.toList.map fun x => (x.layer, x.errorMessage)
  faultless : r.verified = true ↔ failed = none

/-- Only the layer that failed tells of a failure. -/
theorem Report.Course.failed_or {r : Report} {held skipped : List Finding} {failed : Option Finding}
    (h : r.Course held failed skipped) {x : Finding} (member : x ∈ r.findings) :
    failed = some x ∨ x.errorKind = none ∧ ¬(x.valid = false ∧ x.isSkipped = false) := by
  rw [h.findings, List.mem_append, List.mem_append, Option.mem_toList] at member
  rcases member with (holds | own) | rest
  · obtain ⟨valid, -, kind⟩ := h.hold x holds
    exact .inr ⟨kind, by simp [valid]⟩
  · exact .inl own
  · obtain ⟨-, skips, kind⟩ := h.rest x rest
    exact .inr ⟨kind, by simp [skips]⟩

/-- The errors are the findings that are neither valid nor skipped. -/
theorem Report.errors_of_split {r : Report} {held skipped : List Finding} {failed : Option Finding}
    (findings : r.findings = held ++ failed.toList ++ skipped) (hold : ∀ x ∈ held, x.valid = true)
    (fails : ∀ x ∈ failed, x.valid = false ∧ x.isSkipped = false)
    (rest : ∀ x ∈ skipped, x.isSkipped = true)
    (messages : ∀ x ∈ failed, ∃ message, x.errorMessage = some message) :
    r.errors.map (fun error => (error.1, some error.2)) =
      failed.toList.map fun x => (x.layer, x.errorMessage) := by
  have first : held.filter (fun x => !x.valid && !x.isSkipped) = [] :=
    List.filter_eq_nil_iff.2 fun x hx => by simp [hold x hx]
  have second : failed.toList.filter (fun x => !x.valid && !x.isSkipped) = failed.toList :=
    List.filter_eq_self.2 fun x hx => by simp [fails x (Option.mem_toList.1 hx)]
  have third : skipped.filter (fun x => !x.valid && !x.isSkipped) = [] :=
    List.filter_eq_nil_iff.2 fun x hx => by simp [rest x hx]
  rw [errors, findings, List.filter_append, List.filter_append, first, second, third,
    List.nil_append, List.append_nil]
  cases failed with
  | none => rfl
  | some x =>
    obtain ⟨message, own⟩ := messages x rfl
    simp [own]

namespace Verifier.Outcome

/-- The flags and the evidence of a run in which the layers `held` hold. -/
structure Tells (held : List Layer) (o : Outcome) : Prop where
  included : o.included = decide (.entryInclusion ∈ held)
  anchored : o.anchored = decide (.partitionAnchor ∈ held)
  signed : o.signed = decide (.blockSignatures ∈ held)
  traced : o.traced = decide (.genesisTrust ∈ held)
  inclusion : .entryInclusion ∈ held → o.inclusion.isSome = true
  finality : o.finality.isSome = decide (.blockSignatures ∈ held)

/-- The run stops at a layer that fails for the cause `f`. -/
structure StopsAt (layer : Layer) (f : Failure) (o : Outcome) : Prop where
  tells : o.Tells layer.before
  recorded : ∃ passed x, o.recorded = passed ++ [x] ∧
    List.Forall₂ Layer.Passes layer.before passed ∧ layer.Fails f x
  skipped : ∃ reason, o.skipped = layer.after.map fun other => .skipped other.name reason

/-- All layers hold. -/
structure Completes (o : Outcome) : Prop where
  tells : o.Tells Layer.all
  recorded : List.Forall₂ Layer.Passes Layer.all o.recorded
  skipped : o.skipped = []

variable {o : Outcome} {held : List Layer} {now : UInt64} {account : Url}

/-- The level only depends on how many layers hold, as they hold in order. -/
theorem Tells.levels (h : o.Tells held) (order : held <+: Layer.all) :
    ((report now account o).trustLevel = .full ↔ held.length = 5) ∧
      ((report now account o).trustLevel = .partialBvn ↔ held.length = 3 ∨ held.length = 4) ∧
      ((report now account o).trustLevel = .partialBpt ↔ held.length = 1 ∨ held.length = 2) ∧
      ((report now account o).trustLevel = .none ↔ held.length = 0) := by
  have level : (report now account o).trustLevel =
      TrustLevel.assess o.included o.anchored o.signed o.traced := rfl
  rw [level, h.included, h.anchored, h.signed, h.traced, List.prefix_iff_eq_take.1 order]
  have few : held.length ≤ 5 := order.length_le
  generalize held.length = n at few
  interval_cases n <;> decide

/-- A report on layers of which the first ones hold, then one may fail, and the others are
skipped. -/
theorem course_of_tells {passed skipped : List Finding} {failed : Option Finding}
    (h : o.Tells held) (order : held <+: Layer.all)
    (recorded : o.recorded = passed ++ failed.toList) (skips : o.skipped = skipped)
    (passes : List.Forall₂ Layer.Passes held passed)
    (fails : ∀ x ∈ failed, ∃ layer f, Layer.Fails layer f x)
    (rest : ∀ x ∈ skipped, ∃ name reason, x = .skipped name reason)
    (layers : (passed ++ failed.toList ++ skipped).map (·.layer) = Layer.all.map Layer.name)
    (ends : failed = none → skipped = []) :
    (report now account o).Course passed failed skipped := by
  have ran : ∀ x ∈ passed, x.valid = true ∧ x.isSkipped = false ∧ x.errorKind = none :=
    fun x hx => by
    obtain ⟨layer, holds⟩ := Layer.passes_of_mem passes x hx
    exact ⟨holds.valid, holds.ran, holds.kind⟩
  have failedRan : ∀ x ∈ failed, x.valid = false ∧ x.isSkipped = false := fun x hx => by
    obtain ⟨layer, f, fails⟩ := fails x hx
    exact ⟨fails.valid, fails.ran⟩
  have notRan : ∀ x ∈ skipped, x.valid = false ∧ x.isSkipped = true ∧ x.errorKind = none :=
    fun x hx => by
      obtain ⟨layer, reason, rfl⟩ := rest x hx
      exact ⟨rfl, rfl, rfl⟩
  have messages : ∀ x ∈ failed, ∃ message, x.errorMessage = some message := fun x hx => by
    obtain ⟨layer, f, fails⟩ := fails x hx
    exact ⟨_, fails.message⟩
  have findings : (report now account o).findings = passed ++ failed.toList ++ skipped := by
    rw [← recorded, ← skips]
    rfl
  have mem_held (layer : Layer) : (∃ x ∈ passed, x.layer = layer.name) ↔ layer ∈ held := by
    rw [← List.mem_map, Layer.map_layer_of_passes passes, List.mem_map]
    constructor
    · rintro ⟨other, member, same⟩
      exact Layer.name_injective same ▸ member
    · exact fun member => ⟨_, member, rfl⟩
  obtain ⟨full, bvn, bpt, none⟩ :
      ((report now account o).trustLevel = .full ↔ passed.length = 5) ∧ _ ∧ _ ∧ _ :=
    passes.length_eq ▸ h.levels order
  have total : passed.length + (failed.toList.length + skipped.length) = 5 := by
    simpa [Layer.all] using congrArg List.length layers
  have verified : (report now account o).verified = true ↔
      (report now account o).trustLevel = .full :=
    decide_eq_true_iff
  refine ⟨findings, findings ▸ layers, ran, failedRan, notRan, full, bvn, bpt, none,
    verified, ?_, ?_, ?_, ?_, ?_⟩
  · rw [mem_held]
    change o.finality.isSome = true ↔ _
    rw [h.finality, decide_eq_true_iff]
  · exact fun held => h.inclusion ((mem_held _).1 held)
  · intro name
    change name ∈ (Keyed.ofList _).keys ↔ _
    rw [Keyed.mem_keys_ofList, findings, recorded, List.map_map]
    have ranAll : ∀ x ∈ passed ++ failed.toList, x.isSkipped = false := fun x hx => by
      rcases List.mem_append.1 hx with hx | hx
      · exact (ran x hx).2.1
      · exact (failedRan x (Option.mem_toList.1 hx)).2
    simp only [List.mem_map, Function.comp_apply]
    constructor
    · rintro ⟨x, hx, same⟩
      exact ⟨x, List.mem_append_left _ hx, same, ranAll x hx⟩
    · rintro ⟨x, hx, same, notSkipped⟩
      rcases List.mem_append.1 hx with hx | hx
      · exact ⟨x, hx, same⟩
      · rw [(notRan x hx).2.1] at notSkipped
        cases notSkipped
  · exact Report.errors_of_split findings (fun x hx => (ran x hx).1) failedRan
      (fun x hx => (notRan x hx).2.1) messages
  · rw [verified, full]
    cases failed with
    | none =>
      rw [ends rfl] at total
      exact iff_of_true (by simpa using total) rfl
    | some x =>
      refine iff_of_false (fun whole => ?_) (by simp)
      simp at total
      omega

variable (now account) in
theorem StopsAt.course {layer : Layer} {f : Failure} (h : o.StopsAt layer f) :
    ∃ held x skipped, (report now account o).Course held (some x) skipped ∧ layer.Fails f x := by
  obtain ⟨passed, x, recorded, passes, fails⟩ := h.recorded
  obtain ⟨reason, skips⟩ := h.skipped
  refine ⟨passed, x, o.skipped, course_of_tells h.tells ⟨layer :: layer.after, layer.all_eq.symm⟩
    recorded rfl passes ?_ ?_ ?_ ?_, fails⟩
  · intro y hy
    obtain rfl := Option.some.inj hy
    exact ⟨layer, f, fails⟩
  · intro y hy
    rw [skips] at hy
    obtain ⟨other, -, rfl⟩ := List.mem_map.1 hy
    exact ⟨other.name, reason, rfl⟩
  · rw [layer.all_eq, skips]
    simp [Layer.map_layer_of_passes passes, fails.layer, Finding.skipped, Function.comp_def]
  · exact fun none => nomatch none

variable (now account) in
theorem Completes.course (h : o.Completes) :
    (report now account o).Course o.recorded none [] := by
  refine course_of_tells h.tells (List.prefix_refl _) (List.append_nil _).symm h.skipped h.recorded
    (fun x hx => nomatch hx) (fun x hx => nomatch hx) ?_ fun _ => rfl
  simp [Layer.map_layer_of_passes h.recorded]

end Verifier.Outcome

end LightClient
