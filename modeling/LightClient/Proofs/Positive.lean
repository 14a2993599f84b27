import LightClient.Proofs.Reporting

/-!
# What is remembered

Verifiers that agree on settings and genesis use one cache, whatever their backends answer. All that
is ever kept there has been checked for them and stands under its own key. A layer that fails, or
ends the verification, adds nothing to its own tables, to those of the layers after it or to the
reports.
-/
namespace LightClient

namespace Finality

/-- A final block was signed by the power that its record requires. -/
theorem hasQuorum_of_finalizes {block : Block} {commit : Commit} {validators : List Validator}
    {f : Finality} (h : commit.Finalizes block validators f) : f.hasQuorum = true := by
  have low := Validator.powerSum_nonneg h.bounded.nonneg
  have quorum := h.quorum
  rw [hasQuorum, decide_eq_true_iff, requiredPower, Validator.quorumThreshold_le, h.totalPower,
    h.signedPower]
  omega

end Finality

namespace Verifier

theorem blockKey_eq_of_height (partition : Url) {height : UInt64} {signed : Int64}
    (same : signed.toInt = height.toNat) :
    blockKey partition height = s!"{partition}@{signed}" := by
  have digits : toString height = toString signed := by
    apply String.toList_inj.1
    change _ = (toString signed.toInt).toList
    rw [Numeral.toList_uint64, same, Numeral.toList_int, if_neg (by omega), Int.natAbs_natCast]
  rw [blockKey, digits]

variable {v : Verifier}

/-- A value has been checked for verifiers with the settings and the genesis of `v`, and where it
tells what it is about it stands under that key. -/
def Positive (v : Verifier) : (t : Cache.Table) → String → t.Value → Prop
  | .reports, key, r => r.verified = true ∧ r.account.text = key
  | .receipts, _, r => r.isIntact v.config.algorithm = .ok true
  | .inclusions, key, p =>
      p.check v.config.algorithm = .ok () ∧ key = positionKey p.scope p.chain p.index
  | .finalities, key, f => f.hasQuorum = true ∧ key = s!"{v.authority}@{f.blockHeight}"
  | .traces, key, trace => ∃ set height handovers,
      v.genesis.check v.config.algorithm set height handovers = .ok trace ∧
        key = v.traceKey height set

/-- What has evidence is positive. -/
theorem positive_of_kept {geneses : Genesis → Prop}
    (own : ∀ g, geneses g → g = v.genesis) {j : Journal}
    (t : Cache.Table) (key : String) (value : t.Value)
    (h : Kept geneses v.anchoring v.config.chain j t key value) : v.Positive t key value := by
  cases t with
  | reports =>
    obtain ⟨verified, named, -⟩ := h
    exact ⟨verified, named⟩
  | receipts => exact Receipt.isIntact_eq_true.2 h
  | inclusions =>
    obtain ⟨named, -, holds⟩ := h
    exact ⟨Inclusion.check_eq_ok.2 holds, named⟩
  | finalities =>
    obtain ⟨height, named, same, signed, commit, certified⟩ := h
    exact ⟨Finality.hasQuorum_of_finalizes certified.final,
      named.trans (blockKey_eq_of_height v.authority same)⟩
  | traces =>
    obtain ⟨w, set, height, handovers, genesis, algorithm, named, descends⟩ := h
    have genesis := own _ genesis
    rw [genesis] at descends
    refine ⟨set, height, handovers, Genesis.check_eq_ok.2 descends.reaches, ?_⟩
    rw [named, traceKey, traceKey, genesis, algorithm]
    rfl

/-- A layer has failed: a report tells so, or the verification has ended for a failure whose kind
only this layer ends one for. -/
def FailsIn (layer : Layer) : Except Failure Report → Prop
  | .ok r => ∃ x ∈ r.findings, x.layer = layer.name ∧ x.valid = false ∧ x.isSkipped = false
  | .error f => AbortsIn layer f

theorem AbortsIn.unique {layer other : Layer} {f : Failure} (h : AbortsIn layer f)
    (h' : AbortsIn other f) : layer = other := by
  rcases h with ⟨rfl, kind⟩ | ⟨rfl, kind⟩ <;> rcases h' with ⟨rfl, kind'⟩ | ⟨rfl, kind'⟩
  · rfl
  · cases kind.symm.trans kind'
  · cases kind.symm.trans kind'
  · rfl

namespace Conclusion
variable {s s' : State} {result : Except Failure Report} {layer : Layer}

/-- What fails in a layer has only added to the tables of the layers before. -/
theorem adds (h : Conclusion v s result s') (fails : FailsIn layer result) :
    s.cache.Adds (layer.before.flatMap Layer.tables) s'.cache := by
  cases h with
  | aborts cause since =>
    obtain rfl := cause.unique fails
    exact since.adds
  | @stops stopped f o now account _ _ stops since unusable =>
    obtain ⟨held, failed, skipped, course, own⟩ := stops.course now account
    obtain ⟨x, member, named, invalid, ran⟩ := fails
    rcases course.failed_or member with same | ⟨-, other⟩
    · obtain rfl := Option.some.inj same
      obtain rfl := Layer.name_injective (own.layer.symm.trans named)
      exact since.adds
    · exact absurd ⟨invalid, ran⟩ other
  | verified verified course since =>
    obtain ⟨held, failed, skipped, course⟩ := course
    obtain ⟨x, member, -, failure⟩ := fails
    rcases course.failed_or member with own | ⟨-, other⟩
    · cases (course.faultless.1 verified).symm.trans own
    · exact absurd failure other

/-- All that is not a verified report fails in some layer. -/
theorem verified_or_failsIn (h : Conclusion v s result s') :
    (∃ r, result = .ok r ∧ r.verified = true) ∨ ∃ layer, FailsIn layer result := by
  cases h with
  | @aborts layer f _ _ cause since => exact .inr ⟨layer, cause⟩
  | @stops layer f o now account _ _ stops since unusable =>
    obtain ⟨held, x, skipped, course, fails⟩ := stops.course now account
    refine .inr ⟨layer, x, ?_, fails.layer, fails.valid, fails.ran⟩
    rw [course.findings]
    simp
  | verified verified course since => exact .inl ⟨_, rfl, verified⟩

end Conclusion

end Verifier

namespace Session
open Verifier

variable {κ : Type} (v : Verifier) (backends : κ → Backend) (settings : CacheConfig) (now : UInt64)
  (actions : List (Action κ))

theorem run_positive (k : κ) :
    ((start settings now).run (fun k => ⟨v, backends k⟩) actions).state.cache.Holds v.Positive := by
  have kept := run_kept (fun k => ⟨v, backends k⟩) (fun _ _ => rfl) k settings now actions
  refine kept.mono (positive_of_kept ?_)
  rintro _ ⟨_, rfl⟩
  rfl

/-- Verifiers that agree on settings and genesis only keep positive results, at any time in the use
of a cache. The next verification gives a verified report, or it fails in a layer and has added
nothing to the tables of that layer, to those of the layers after it or to the reports. -/
theorem only_positive_kept (k : κ) (account : String) :
    let before := (start settings now).run (fun k => ⟨v, backends k⟩) actions
    let after := (before.verify ⟨v, backends k⟩ account).2
    let result := (before.verify ⟨v, backends k⟩ account).1
    before.state.cache.Holds v.Positive ∧ after.state.cache.Holds v.Positive ∧
      ((∃ r, result = .ok r ∧ r.verified = true) ∨ ∃ layer, FailsIn layer result) ∧
      ∀ layer, FailsIn layer result →
        before.state.cache.Adds (layer.before.flatMap Layer.tables) after.state.cache := by
  intro before after result
  have concludes := run_concludes (fun k => ⟨v, backends k⟩) settings now actions
    ⟨v, backends k⟩ account
  have next := run_positive v backends settings now (actions ++ [.verify k account]) k
  rw [run, List.foldl_append] at next
  exact ⟨run_positive v backends settings now actions k, next, concludes.verified_or_failsIn,
    fun layer => concludes.adds⟩

/-- Where the commits cannot be reached, only the entry and its receipt are kept. -/
theorem unsigned_entry_kept : ∃ r,
    ((start .default 0).verify ⟨Sample.verifier, .fixed Sample.unsignedAnswers⟩ "acc://alice").1 =
      .ok r ∧
      FailsIn .blockSignatures (.ok r) ∧
      ∀ b ∈ ((start .default 0).verify ⟨Sample.verifier, .fixed Sample.unsignedAnswers⟩
        "acc://alice").2.state.cache.bindings, b.table = .receipts ∨ b.table = .inclusions := by
  have passes : ((start .default 0).verify ⟨Sample.verifier, .fixed Sample.unsignedAnswers⟩
      "acc://alice").1.toOption.any (·.findings.any fun x =>
        x.layer == Layer.blockSignatures.name && !x.valid && !x.isSkipped) = true := by
    decide +kernel
  obtain ⟨r, returned, found⟩ := Sample.exists_of_any passes
  obtain ⟨x, member, failed⟩ := List.any_eq_true.1 found
  have fails : FailsIn .blockSignatures (.ok r) := ⟨x, member, by simpa [and_assoc] using failed⟩
  have whole := only_positive_kept Sample.verifier (fun _ : Unit => .fixed Sample.unsignedAnswers)
    .default 0 [] () "acc://alice"
  dsimp only [run, List.foldl_nil] at whole
  rw [returned] at whole
  obtain ⟨-, -, -, adds⟩ := whole
  refine ⟨r, returned, fails, fun b member => ?_⟩
  rcases adds .blockSignatures fails b member with early | ⟨b₀, none, -⟩
  · simpa [Layer.before, Layer.all, Layer.tables] using early
  · cases none

end Session

end LightClient
