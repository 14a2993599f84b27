import LightClient.Proofs.Endings
import LightClient.Proofs.Soundness

/-!
# What callers are told

Whoever has filled the cache, every report that a caller gets tells one story. A failure of a kind
that ends verifications should never stand in a report. There are three ways in which it does: two
layers take in a receipt that is too long and one a block that is too high as failures of their own.
-/
namespace LightClient

namespace Verifier
variable {v : Verifier} {s s' : State} {result : Except Failure Report} {r : Report} {f : Failure}

namespace Conclusion

theorem checked (h : Conclusion v s result s') : s'.cache.Holds Checked := by
  cases h with
  | aborts cause since => exact since.checked
  | stops stops since unusable => exact since.checked
  | verified verified course since => exact since.checked

theorem aborts_of_error (h : Conclusion v s (.error f) s') : f.aborts = true := by
  cases h with
  | aborts cause since =>
    rcases cause with ⟨-, unusable⟩ | ⟨-, gap⟩
    · exact Failure.aborts_iff.2 (.inl unusable)
    · exact Failure.aborts_iff.2 (.inr gap)

theorem course (h : Conclusion v s (.ok r) s') :
    ∃ held failed skipped, r.Course held failed skipped := by
  cases h with
  | @stops _ _ _ now account _ _ stops since unusable =>
    obtain ⟨held, x, skipped, course, -⟩ := stops.course now account
    exact ⟨held, some x, skipped, course⟩
  | verified verified course since => exact course

/-- A finding of an ending kind belongs to the layer that failed, on a record that it cannot take
in. -/
theorem unusable (h : Conclusion v s (.ok r) s') :
    ∃ log, s'.journal = s.journal ++ log ∧ ∀ x ∈ r.findings,
      (x.errorKind = some .malformedInput ∨ x.errorKind = some .chainDiscontinuity) ↔
        x.valid = false ∧ x.isSkipped = false ∧
          ∃ layer, x.layer = layer.name ∧ Overrun v log r.inclusion layer := by
  cases h with
  | @stops layer f o now account log _ stops since unusable =>
    refine ⟨log, since.journal, fun x member => ?_⟩
    obtain ⟨held, failed, skipped, course, fails⟩ := stops.course now account
    rcases course.failed_or member with own | ⟨kind, other⟩
    · obtain rfl := Option.some.inj own
      rw [fails.kind, Option.some.injEq, Option.some.injEq, ← Failure.aborts_iff, unusable]
      refine ⟨fun overrun => ⟨fails.valid, fails.ran, layer, fails.layer, overrun⟩, ?_⟩
      rintro ⟨-, -, other, own, overrun⟩
      obtain rfl := Layer.name_injective (fails.layer.symm.trans own)
      exact overrun
    · exact iff_of_false (by simp [kind]) fun ⟨invalid, ran, _⟩ => other ⟨invalid, ran⟩
  | @verified _ log _ verified course since =>
    refine ⟨log, since.journal, fun x member => ?_⟩
    obtain ⟨held, failed, skipped, course⟩ := course
    rcases course.failed_or member with own | ⟨kind, other⟩
    · cases (course.faultless.1 verified).symm.trans own
    · exact iff_of_false (by simp [kind]) fun ⟨invalid, ran, _⟩ => other ⟨invalid, ran⟩

end Conclusion

end Verifier

namespace Session
open Verifier

section
variable {κ : Type} (callers : κ → Caller) (settings : CacheConfig) (now : UInt64)
  (actions : List (Action κ)) (caller : Caller) (account : String)

/-- Whoever uses a cache, it keeps what has been checked. -/
theorem run_checked : ((start settings now).run callers actions).state.cache.Holds Checked :=
  run_keeps (fun s => s.cache.Holds Checked)
    (fun _ _ account h => (verifyAccount_concludes account h).checked)
    (fun _ _ fewer h => h.of_subset fewer) (Cache.holds_empty settings) actions

theorem run_concludes :
    Conclusion caller.verifier ((start settings now).run callers actions).state
      (((start settings now).run callers actions).verify caller account).1
      (((start settings now).run callers actions).verify caller account).2.state :=
  verifyAccount_concludes account (run_checked callers settings now actions)

/-- The level of trust, the evidence, the times and the errors of every report follow from its
findings: of layers that hold, of at most one that failed and of the others as skipped. -/
theorem report_course {r : Report}
    (returned : (((start settings now).run callers actions).verify caller account).1 = .ok r) :
    ∃ held failed skipped, r.Course held failed skipped := by
  have concludes := run_concludes callers settings now actions caller account
  rw [returned] at concludes
  exact concludes.course

end

namespace Sample

/-- The network, of which the commits cannot be reached. -/
def unsignedAnswers : (query : Query) → Except QueryError query.Answer
  | .commit .. => .error (.unavailable "offline")
  | query => answers query

end Sample

/-- Without commits three layers hold and the anchor is told of. -/
theorem unsigned_report_course : ∃ r,
    ((start .default 0).verify ⟨Sample.verifier, .fixed Sample.unsignedAnswers⟩ "acc://alice").1 =
      .ok r ∧
      r.trustLevel = .partialBvn ∧ ∃ held failed skipped, r.Course held failed skipped ∧
        (held.length = 3 ∨ held.length = 4) := by
  have passes : ((start .default 0).verify ⟨Sample.verifier, .fixed Sample.unsignedAnswers⟩
      "acc://alice").1.toOption.any (·.trustLevel == .partialBvn) = true := by decide +kernel
  obtain ⟨r, returned, level⟩ := Sample.exists_of_any passes
  have level : r.trustLevel = .partialBvn := by simpa using level
  obtain ⟨held, failed, skipped, course⟩ :=
    report_course Sample.callers .default 0 [] ⟨Sample.verifier, .fixed Sample.unsignedAnswers⟩
      "acc://alice" returned
  exact ⟨r, returned, level, held, failed, skipped, course, course.partialBvn.1 level⟩

section
variable {κ : Type} (callers : κ → Caller) (settings : CacheConfig) (now : UInt64)
  (actions : List (Action κ)) (caller : Caller) (account : String)

/-- Without a report there is a failure of a kind that ends verifications. In a report such a kind
is told of exactly the layers that failed on a record that they cannot take in. -/
theorem ends_unless_overrun :
    let before := (start settings now).run callers actions
    let after := (before.verify caller account).2
    (∀ f, (before.verify caller account).1 = .error f → f.aborts = true) ∧
      ∀ r, (before.verify caller account).1 = .ok r →
        ∃ log, after.state.journal = before.state.journal ++ log ∧ ∀ x ∈ r.findings,
          (x.errorKind = some .malformedInput ∨ x.errorKind = some .chainDiscontinuity) ↔
            x.valid = false ∧ x.isSkipped = false ∧
              ∃ layer, x.layer = layer.name ∧ Overrun caller.verifier log r.inclusion layer := by
  intro before after
  have concludes := run_concludes callers settings now actions caller account
  refine ⟨fun f failed => ?_, fun r returned => ?_⟩
  · rw [failed] at concludes
    exact concludes.aborts_of_error
  · rw [returned] at concludes
    exact concludes.unusable

end

namespace Sample

/-- A path that is longer than what is looked at. -/
def longReceipt : Receipt := ⟨root, root, 1, List.replicate 1025 ⟨root, true⟩⟩

/-- The network, in which the receipt of the entry is too long. -/
def longAnswers : (query : Query) → Except QueryError query.Answer
  | .chainEntry .. => .ok (⟨root, some longReceipt⟩ : ChainEntry)
  | query => answers query

theorem long_receipt_reported : ∃ r : Report,
    ((start .default 0).verify ⟨verifier, .fixed longAnswers⟩ "acc://alice").1 = .ok r ∧
      ∃ x ∈ r.findings, x.errorKind = some .malformedInput := by
  have passes :
      ((start .default 0).verify ⟨verifier, .fixed longAnswers⟩ "acc://alice").1.toOption.any
      (·.findings.any (·.errorKind == some .malformedInput)) = true := by decide +kernel
  obtain ⟨r, returned, found⟩ := exists_of_any passes
  obtain ⟨x, member, kind⟩ := List.any_eq_true.1 found
  exact ⟨r, returned, x, member, by simpa using kind⟩

end Sample

/-- A receipt that is too long makes a report and not an end: a layer was given a record that it
cannot take in. -/
theorem long_receipt_overruns : ∃ r log layer,
    ((start .default 0).verify ⟨Sample.verifier, .fixed Sample.longAnswers⟩ "acc://alice").1 =
      .ok r ∧
      Overrun Sample.verifier log r.inclusion layer := by
  obtain ⟨r, returned, x, member, kind⟩ := Sample.long_receipt_reported
  obtain ⟨-, reports⟩ := ends_unless_overrun Sample.callers .default 0 []
    ⟨Sample.verifier, .fixed Sample.longAnswers⟩ "acc://alice"
  obtain ⟨log, -, told⟩ := reports r returned
  obtain ⟨-, -, layer, -, overrun⟩ := (told x member).1 (.inl kind)
  exact ⟨r, log, layer, returned, overrun⟩

/-- So reports do tell of failures that should have ended the verification. -/
theorem reports_ending_failures : ¬ ∀ (caller : Caller) (account : String) (r : Report),
    ((start .default 0).verify caller account).1 = .ok r → ∀ x ∈ r.findings,
      x.errorKind ≠ some .malformedInput ∧ x.errorKind ≠ some .chainDiscontinuity := by
  intro never
  obtain ⟨r, returned, x, member, kind⟩ := Sample.long_receipt_reported
  exact (never _ _ r returned x member).1 kind

end Session

end LightClient
