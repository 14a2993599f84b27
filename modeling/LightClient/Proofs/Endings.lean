import LightClient.Proofs.Causes
import LightClient.Proofs.Coherence
import LightClient.Proofs.Recency

/-!
# How verifications end

A run of the layers is ended by a failure, stops at a layer, or completes. For each way it is told
what the layers before have left in the cache, and for a stop whether its failure is one that ends
runs elsewhere: that only happens with a record that is longer or higher than the layer can take in.
-/
namespace LightClient

namespace Cache
variable {c c' c'' : Cache} {tables others : List Table} {t : Table} {key : String} {now : UInt64}

/-- All that is bound in the second cache satisfies `P`, unless it was bound in the first one to the
same value and with the same times. -/
def Gains (P : Record → Prop) (c c' : Cache) : Prop :=
  ∀ b ∈ c'.bindings, P b.record ∨ ∃ b₀ ∈ c.bindings, b₀.record = b.record

namespace Gains
variable {P Q : Record → Prop}

theorem of_subset (fewer : c'.bindings ⊆ c.bindings) : Gains P c c' :=
  fun b hb => .inr ⟨b, fewer hb, rfl⟩

theorem mono (h : Gains P c c') (weaker : ∀ x, P x → Q x) : Gains Q c c' :=
  fun b hb => (h b hb).imp_left (weaker _)

theorem trans (h : Gains P c c') (later : Gains P c' c'') : Gains P c c'' := fun b hb => by
  rcases later b hb with new | ⟨b', hb', same⟩
  · exact .inl new
  · rcases h b' hb' with new | ⟨b₀, hb₀, same₀⟩
    · exact .inl (same ▸ new)
    · exact .inr ⟨b₀, hb₀, same₀.trans same⟩

/-- A lookup adds nothing: the entry that it finds keeps its value and its times. -/
theorem get : Gains P c (c.get t key now).2 := by
  unfold Cache.get
  split
  · exact .of_subset fun _ hb => hb
  · rename_i e found
    split
    · exact .of_subset (bindings_keepOnly_subset _)
    · intro b hb
      rcases List.mem_append.1 hb with old | own
      · exact .inr ⟨b, (List.mem_filter.1 old).1, rfl⟩
      · rw [List.mem_singleton.1 own]
        exact .inr ⟨_, mem_of_found found, rfl⟩

theorem store {value : t.Value} {ttl : Option Nat} (new : P ⟨t, key, value, now.toNat,
      (Clock.after now (ttl.getD (1000 * c.defaultTtl.toNat))).toNat⟩) :
    Gains P c (c.store t key value now ttl) := fun b hb => by
  rcases List.mem_append.1 (bindings_enforceBound_subset hb) with old | own
  · exact .inr ⟨b, (List.mem_filter.1 old).1, rfl⟩
  · rw [List.mem_singleton.1 own]
    exact .inl new

end Gains

/-- Between two caches nothing has been added except in some tables: all else that is bound was
bound to the same value, with the same times. -/
def Adds (tables : List Table) (c c' : Cache) : Prop :=
  ∀ b ∈ c'.bindings, b.table ∈ tables ∨ ∃ b₀ ∈ c.bindings, b₀.record = b.record

theorem adds_iff : Adds tables c c' ↔ Gains (·.table ∈ tables) c c' := Iff.rfl

theorem Adds.of_subset (fewer : c'.bindings ⊆ c.bindings) : Adds tables c c' :=
  adds_iff.2 (.of_subset fewer)

theorem Adds.mono (h : Adds tables c c') (wider : tables ⊆ others) : Adds others c c' :=
  adds_iff.2 ((adds_iff.1 h).mono fun _ member => wider member)

theorem Adds.trans (h : Adds tables c c') (later : Adds tables c' c'') : Adds tables c c'' :=
  adds_iff.2 ((adds_iff.1 h).trans (adds_iff.1 later))

theorem adds_get : Adds tables c (c.get t key now).2 := adds_iff.2 .get

theorem adds_store {value : t.Value} {ttl : Option Nat} (member : t ∈ tables) :
    Adds tables c (c.store t key value now ttl) := adds_iff.2 (.store member)

end Cache

namespace Layer

/-- The tables that a layer adds to when it holds. -/
def tables : Layer → List Cache.Table
  | entryInclusion => [.receipts, .inclusions]
  | blockSignatures => [.finalities]
  | genesisTrust => [.traces]
  | stateCommitment | partitionAnchor => []

end Layer

namespace Verifier

/-- What is kept whoever has verified it: full trust with a report that tells one story, and
inclusions that hold for some digest. -/
def Checked : (t : Cache.Table) → String → t.Value → Prop
  | .reports, _, r => r.verified = true ∧ ∃ held failed skipped, r.Course held failed skipped
  | .inclusions, _, p => ∃ algorithm, p.Holds algorithm
  | .receipts, _, _ | .finalities, _, _ | .traces, _, _ => True

/-- From one state to another only `log` has been asked and only the tables were added to. -/
structure Since (tables : List Cache.Table) (s : State) (log : Journal) (s' : State) : Prop where
  journal : s'.journal = s.journal ++ log
  adds : s.cache.Adds tables s'.cache
  checked : s'.cache.Holds Checked

namespace Since
variable {tables others : List Cache.Table} {s s' : State} {log : Journal}

theorem refl (h : s.cache.Holds Checked) : Since tables s [] s :=
  ⟨(List.append_nil _).symm, .of_subset fun _ hb => hb, h⟩

theorem mono (h : Since tables s log s') (wider : tables ⊆ others) : Since others s log s' :=
  ⟨h.journal, h.adds.mono wider, h.checked⟩

theorem asked (h : Since tables s log s') {j : Journal} (more : Journal)
    (grown : j = s'.journal ++ more) :
    Since tables s (log ++ more) ⟨s'.cache, j⟩ :=
  ⟨by rw [grown, h.journal, List.append_assoc], h.adds, h.checked⟩

theorem looked (h : Since tables s log s') (now : UInt64) (t : Cache.Table) (key : String) :
    Since tables s log ⟨(s'.cache.get t key now).2, s'.journal⟩ :=
  ⟨h.journal, h.adds.trans Cache.adds_get, h.checked.get⟩

theorem stored (h : Since tables s log s') (now : UInt64) (t : Cache.Table) (key : String)
    (value : t.Value) (member : t ∈ tables) (holds : Checked t key value) :
    Since tables s log ⟨s'.cache.store t key value now none, s'.journal⟩ :=
  ⟨h.journal, h.adds.trans (Cache.adds_store member), h.checked.store holds⟩

end Since

/-- The last that a layer was given is a record that it cannot take in: a path that is too long for
the inclusion or the anchor, or a block at a height that no vote can hold. -/
inductive Overrun (v : Verifier) (log : Journal) (inclusion : Option Inclusion) : Layer → Prop
  | receipt {p : Inclusion} (kept : inclusion = some p)
      (long : Receipt.maxSteps < p.receipt.steps.length) : Overrun v log inclusion .entryInclusion
  | anchor {home : Url} {root : Hash} {search : AnchorSearch} {anchor : Anchor}
      (last : log.getLast? = some ⟨.anchor home v.authority root search, .ok anchor⟩)
      (long : v.anchoring.Overlong anchor home root) : Overrun v log inclusion .partitionAnchor
  | height {earlier : Journal} {partition : Url} {block : Block} {set : List Validator}
      {commit : Commit}
      (last : log = earlier ++ [⟨.block partition block.height, .ok block⟩,
        ⟨.validatorSet partition block.height, .ok set⟩,
        ⟨.commit partition block.height, .ok commit⟩])
      (signed : commit.precommits ≠ []) (own : Commit.checkMatches block commit = .ok ())
      (beyond : Int64.maxValue.toInt < block.height.toNat) :
      Overrun v log inclusion .blockSignatures

/-- The layers in which a failure ends the whole verification: unusable input in the first layer, a
gap in the last one. -/
def AbortsIn (layer : Layer) (f : Failure) : Prop :=
  layer = .entryInclusion ∧ f.kind = .malformedInput ∨
    layer = .genesisTrust ∧ f.kind = .chainDiscontinuity

/-- How a run of the layers from a state ends. -/
inductive Ending (v : Verifier) (s : State) : Except Failure Outcome → State → Prop
  | aborts {layer : Layer} {f : Failure} {log : Journal} {s' : State} (cause : AbortsIn layer f)
      (since : Since (layer.before.flatMap Layer.tables) s log s') : Ending v s (.error f) s'
  | stops {layer : Layer} {f : Failure} {o : Outcome} {log : Journal} {s' : State}
      (stops : o.StopsAt layer f) (since : Since (layer.before.flatMap Layer.tables) s log s')
      (unusable : f.aborts = true ↔ Overrun v log o.inclusion layer) : Ending v s (.ok o) s'
  | completes {o : Outcome} {log : Journal} {s' : State} (completes : o.Completes)
      (since : Since (Layer.all.flatMap Layer.tables) s log s') : Ending v s (.ok o) s'

namespace Outcome
variable {o : Outcome} {passed : List Layer} {layer : Layer} {x : Finding} {f : Failure}

/-- The first layer and some more have passed, and no flag of a later layer is set. -/
structure Includes (passed : List Layer) (o : Outcome) : Prop where
  recorded : List.Forall₂ Layer.Passes passed o.recorded
  skipped : o.skipped = []
  included : o.included = true
  anchored : o.anchored = false
  signed : o.signed = false
  traced : o.traced = false
  inclusion : o.inclusion.isSome = true
  finality : o.finality = none

theorem Includes.record (h : o.Includes passed) (passes : layer.Passes x) :
    (o.record x).Includes (passed ++ [layer]) :=
  ⟨List.rel_append h.recorded (.cons passes .nil), h.skipped, h.included, h.anchored, h.signed,
    h.traced, h.inclusion, h.finality⟩

theorem Includes.stops (h : o.Includes layer.before) (early : layer = .stateCommitment ∨
    layer = .partitionAnchor) (fails : layer.Fails f x) (reason : String) :
    ((o.record x).stopAfter layer reason).StopsAt layer f := by
  refine ⟨⟨?_, ?_, ?_, ?_, fun _ => h.inclusion, ?_⟩,
    ⟨o.recorded, x, rfl, h.recorded, fails⟩, reason, rfl⟩
  · rcases early with rfl | rfl <;> exact h.included
  · rcases early with rfl | rfl <;> exact h.anchored
  · rcases early with rfl | rfl <;> exact h.signed
  · rcases early with rfl | rfl <;> exact h.traced
  · rcases early with rfl | rfl <;> exact congrArg Option.isSome h.finality

/-- A run whose first layer fails, with or without an inclusion that was looked at. -/
theorem stops_first (inclusion : Option Inclusion) {included : Bool} (unset : included = false)
    (fails : Layer.entryInclusion.Fails f x) (reason : String) :
    (({ start with inclusion, included }.record x).stopAfter .entryInclusion reason).StopsAt
      .entryInclusion f :=
  ⟨⟨unset, rfl, rfl, rfl, (fun none => nomatch none), rfl⟩, ⟨[], x, rfl, .nil, fails⟩, reason, rfl⟩

end Outcome

section
variable {v : Verifier} {backend : Backend} {now : UInt64} {s s₁ : State} {log : Journal}

theorem asking_bind_apply {α β : Type} (u : StateM Journal α) (f : α → StateM State β) (s : State) :
    (asking u >>= f) s = f (u s.journal).1 ⟨s.cache, (u s.journal).2⟩ := rfl

theorem block_of_exchange {scope scope' : Url} {height height' : UInt64} {block block' : Block}
    (same : (⟨.block scope height, .ok block⟩ : Exchange) = ⟨.block scope' height', .ok block'⟩) :
    block = block' := by
  cases same
  rfl

theorem commit_of_exchange {partition partition' : Url} {height height' : UInt64}
    {commit commit' : Commit} (same : (⟨.commit partition height, .ok commit⟩ : Exchange) =
      ⟨.commit partition' height', .ok commit'⟩) : commit = commit' := by
  cases same
  rfl

/-- With all three records at hand, the height of the block is all that can be too much for the
layer. -/
theorem overrun_of_fetched {inclusion : Option Inclusion} {partition : Url} {block : Block}
    {set : List Validator} {commit : Commit} {earlier : Journal}
    (last : log = earlier ++ [⟨.block partition block.height, .ok block⟩,
      ⟨.validatorSet partition block.height, .ok set⟩,
      ⟨.commit partition block.height, .ok commit⟩])
    (signed : commit.precommits ≠ []) :
    Overrun v log inclusion .blockSignatures ↔
      Commit.checkMatches block commit = .ok () ∧ Int64.maxValue.toInt < block.height.toNat := by
  constructor
  · intro overrun
    cases overrun with
    | height same signed own beyond =>
      obtain ⟨first, rest⟩ := List.cons.inj (List.append_inj_right' (last.symm.trans same) rfl)
      obtain rfl := block_of_exchange first
      obtain rfl := commit_of_exchange (List.cons.inj (List.cons.inj rest).2).1
      exact ⟨own, beyond⟩
  · exact fun ⟨own, beyond⟩ => .height last signed own beyond

/-- How the signature layer ends for a block that has just been fetched. -/
inductive SignedEnding (v : Verifier) (s : State) (inclusion : Option Inclusion) :
    Finding × Option Finality → State → Prop
  | fails {f : Failure} {x : Finding} {log : Journal} {s' : State}
      (fails : Layer.blockSignatures.Fails f x)
      (since : Since (Layer.blockSignatures.before.flatMap Layer.tables) s log s')
      (unusable : f.aborts = true ↔ Overrun v log inclusion .blockSignatures) :
      SignedEnding v s inclusion (x, none) s'
  | holds {x : Finding} {finality : Finality} {log : Journal} {s' : State}
      (passes : Layer.blockSignatures.Passes x)
      (since : Since (Layer.genesisTrust.before.flatMap Layer.tables) s log s') :
      SignedEnding v s inclusion (x, some finality) s'

variable {inclusion : Option Inclusion} {partition : Url} {block : Block} {earlier : Journal}

theorem fetchSignatures_ending
    (since : Since (Layer.blockSignatures.before.flatMap Layer.tables) s log s₁)
    (asked : log = earlier ++ [⟨.block partition block.height, .ok block⟩])
    (header : HeaderTree.checkAppHash block = .ok ()) :
    SignedEnding v s inclusion (fetchSignatures backend now partition block s₁).1
      (fetchSignatures backend now partition block s₁).2 := by
  have asks : Asks backend (Commit.verifyFetched backend partition block) :=
    Commit.verifyFetched_asks block
  obtain ⟨more, grown⟩ := asks.grows s₁.journal
  have since' := since.asked more grown.symm
  have found : (Commit.verifyFetched backend partition block s₁.journal).1 =
    Commit.fetchedFinding partition block
      ((Commit.fetch backend partition block.height).run s₁.journal).1 := rfl
  unfold fetchSignatures
  rw [asking_bind_apply, found]
  cases fetched : ((Commit.fetch backend partition block.height).run s₁.journal).1 with
  | error f =>
    have failed : (Commit.fetch backend partition block.height).Fails s₁.journal f
        (s₁.journal ++ more) := Prod.ext fetched grown.symm
    have reported := (Commit.fetch_within backend partition block.height s₁.journal).not_aborts
      fetched
    obtain ⟨last, isLast, empty⟩ := Commit.fails_fetch failed
    refine .fails (Commit.fetchedFinding_unfetched partition block f) since' ?_
    refine iff_of_false (by simp [reported]) fun overrun => ?_
    cases overrun with
    | height same signed own beyond =>
      have last := congrArg List.getLast? same
      rw [List.getLast?_append, isLast, Option.some_or, List.getLast?_append] at last
      exact signed (empty _ _ _ (Option.some.inj last))
  | ok data =>
    obtain ⟨set, commit⟩ := data
    obtain ⟨⟨between, first, second⟩, -, signed⟩ :=
      Commit.fetch_yields.1 (Prod.ext fetched grown.symm)
    obtain rfl : more = [⟨.validatorSet partition block.height, .ok set⟩,
        ⟨.commit partition block.height, .ok commit⟩] := by
      have whole := second.2
      rw [first.2, List.append_assoc] at whole
      exact List.append_cancel_left whole
    cases told : Commit.fetchedFinding partition block (.ok (set, commit)) with
    | mk x finality? =>
      cases checked : Commit.check block commit set with
      | ok result =>
        have held := Commit.fetchedFinding_of_ok (p := partition) checked
        rw [told] at held
        obtain rfl : finality? = some result.1 := held.2
        exact .holds held.1 ((since'.mono (by decide)).stored _ _ _ _ (by decide) trivial)
      | error f =>
        have failed := Commit.fetchedFinding_of_error (p := partition) checked
        rw [told] at failed
        obtain rfl : finality? = none := failed.2
        have last : log ++ [⟨.validatorSet partition block.height, .ok set⟩,
            ⟨.commit partition block.height, .ok commit⟩] =
            earlier ++ [⟨.block partition block.height, .ok block⟩,
              ⟨.validatorSet partition block.height, .ok set⟩,
              ⟨.commit partition block.height, .ok commit⟩] := by
          rw [asked, List.append_assoc]
          rfl
        exact .fails failed.1 since' ((Commit.aborts_iff_of_check header checked).trans
          (overrun_of_fetched last signed).symm)

theorem verifySignatures_ending
    (since : Since (Layer.blockSignatures.before.flatMap Layer.tables) s log s₁)
    (asked : log = earlier ++ [⟨.block partition block.height, .ok block⟩]) :
    SignedEnding v s inclusion (verifySignatures backend now partition block s₁).1
      (verifySignatures backend now partition block s₁).2 := by
  unfold verifySignatures
  cases header : HeaderTree.checkAppHash block with
  | error f =>
    have violates : f.aborts = false :=
      (HeaderTree.checkAppHash_within.mono (by simp)).not_aborts header
    refine .fails (unboundFinding_fails partition block f) since
      (iff_of_false (by simp [violates]) ?_)
    intro overrun
    cases overrun with
    | height same =>
      have last := congrArg List.getLast? (asked.symm.trans same)
      rw [List.getLast?_append, List.getLast?_append] at last
      cases last
  | ok _ =>
    dsimp only
    rw [lookup_bind_apply]
    cases s₁.cache.peek? .finalities (blockKey partition block.height) now with
    | none => exact fetchSignatures_ending (since.looked _ _ _) asked header
    | some finality =>
      dsimp only
      split
      · exact .holds (rememberedFinality_passes partition block finality)
          ((since.looked _ _ _).mono (by decide))
      · exact fetchSignatures_ending (since.looked _ _ _) asked header

/-- How the genesis layer ends. -/
inductive TracedEnding (v : Verifier) (s : State) : Except Failure Finding → State → Prop
  | aborts {f : Failure} {log : Journal} {s' : State} (cause : AbortsIn .genesisTrust f)
      (since : Since (Layer.genesisTrust.before.flatMap Layer.tables) s log s') :
      TracedEnding v s (.error f) s'
  | fails {f : Failure} {x : Finding} {log : Journal} {s' : State}
      (fails : Layer.genesisTrust.Fails f x)
      (since : Since (Layer.genesisTrust.before.flatMap Layer.tables) s log s')
      (reported : f.aborts = false) : TracedEnding v s (.ok x) s'
  | holds {x : Finding} {log : Journal} {s' : State} (passes : Layer.genesisTrust.Passes x)
      (since : Since (Layer.all.flatMap Layer.tables) s log s') : TracedEnding v s (.ok x) s'

theorem verifyGenesis_ending {finality : Finality}
    (since : Since (Layer.genesisTrust.before.flatMap Layer.tables) s log s₁) :
    TracedEnding v s (v.verifyGenesis backend now finality s₁).1
      (v.verifyGenesis backend now finality s₁).2 := by
  unfold verifyGenesis
  rw [lookup_bind_apply]
  cases s₁.cache.peek? .traces (v.traceKey finality.blockHeight finality.validators) now with
  | some trace =>
    refine .holds ?_ ((since.looked _ _ _).mono (by decide))
    exact (Layer.passes_withDetail (by decide)).2 (finding_passes trace)
  | none =>
    have asks : Asks backend
        (v.traceGenesis backend finality.validators finality.blockHeight).run :=
      traceGenesis_asks _ _
    obtain ⟨more, grown⟩ := asks.grows s₁.journal
    have asked :=
      (since.looked now .traces (v.traceKey finality.blockHeight finality.validators)).asked
      more grown.symm
    dsimp only
    rw [asking_bind_apply]
    cases traced : ((v.traceGenesis backend finality.validators finality.blockHeight).run
        s₁.journal).1 with
    | ok trace =>
      exact .holds (finding_passes trace)
        ((asked.mono (by decide)).stored _ _ _ _ (by decide) trivial)
    | error f =>
      dsimp only
      have among := (traceGenesis_within v backend _ _).of_fails (Prod.ext traced rfl)
      split
      · rename_i aborts
        refine .aborts (.inr ⟨rfl, ?_⟩) asked
        rcases Failure.aborts_iff.1 aborts with unusable | gap
        · simp [unusable] at among
        · exact gap
      · rename_i reported
        exact .fails (by simp) asked (Bool.eq_false_iff.2 reported)

/-- The signature and genesis layers, once all others have passed. -/
theorem runSigned_ending {o : Outcome}
    (since : Since (Layer.blockSignatures.before.flatMap Layer.tables) s log s₁)
    (asked : log = earlier ++ [⟨.block partition block.height, .ok block⟩])
    (includes : o.Includes Layer.blockSignatures.before) :
    Ending v s (v.runSigned backend now o partition block s₁).1
      (v.runSigned backend now o partition block s₁).2 := by
  unfold runSigned
  rw [State.bind_apply]
  have signed : SignedEnding v s o.inclusion (verifySignatures backend now partition block s₁).1
      (verifySignatures backend now partition block s₁).2 := verifySignatures_ending since asked
  generalize verifySignatures backend now partition block s₁ = result at signed ⊢
  obtain ⟨⟨x, finality?⟩, s₂⟩ := result
  cases signed with
  | fails fails since unusable =>
    refine .stops ⟨?_, ⟨o.recorded, x, rfl, includes.recorded, fails⟩, _, rfl⟩ since unusable
    exact ⟨includes.included, rfl, includes.signed, includes.traced, fun _ => includes.inclusion,
      congrArg Option.isSome includes.finality⟩
  | @holds _ finality _ _ passes since =>
    have traced : TracedEnding v s (v.verifyGenesis backend now finality s₂).1
        (v.verifyGenesis backend now finality s₂).2 := verifyGenesis_ending since
    dsimp only
    rw [State.bind_apply]
    generalize v.verifyGenesis backend now finality s₂ = result at traced ⊢
    obtain ⟨result, s₃⟩ := result
    have recorded : List.Forall₂ Layer.Passes Layer.genesisTrust.before (o.recorded ++ [x]) :=
      List.rel_append includes.recorded (.cons passes .nil)
    cases traced with
    | aborts cause since => exact .aborts cause since
    | @fails f y _ _ fails since reported =>
      refine .stops ⟨?_, ⟨o.recorded ++ [x], y, rfl, recorded, fails⟩, "", ?_⟩ since
        (iff_of_false (by simp [reported]) fun overrun => nomatch overrun)
      · exact ⟨includes.included, rfl, rfl, fails.valid, fun _ => includes.inclusion, rfl⟩
      · exact includes.skipped
    | holds holds since =>
      refine .completes ⟨?_, List.rel_append recorded (.cons holds .nil), includes.skipped⟩ since
      exact ⟨includes.included, rfl, rfl, holds.valid, fun _ => includes.inclusion, rfl⟩

/-- The anchor layer and those after it, for a block of the home partition that has just been
fetched. -/
theorem runAnchored_ending {o : Outcome} {home : Url} {root : Hash}
    (since : Since (Layer.partitionAnchor.before.flatMap Layer.tables) s log s₁)
    (asked : log = earlier ++ [⟨.block home block.height, .ok block⟩])
    (includes : o.Includes Layer.partitionAnchor.before) :
    Ending v s (v.runAnchored backend now o home root block s₁).1
      (v.runAnchored backend now o home root block s₁).2 := by
  unfold runAnchored
  split
  · have asks : Asks backend (v.anchoring.verifyAnchor backend home root) :=
      Anchoring.verifyAnchor_asks
    obtain ⟨more, grown⟩ := asks.grows s₁.journal
    have since' := since.asked more grown.symm
    have found : (v.anchoring.verifyAnchor backend home root s₁.journal).1 =
      v.anchoring.anchorFinding home root
        ((v.anchoring.find backend home root).run s₁.journal).1 := rfl
    rw [asking_bind_apply, found]
    cases sought : ((v.anchoring.find backend home root).run s₁.journal).1 with
    | error f =>
      have failed : (v.anchoring.find backend home root).Fails s₁.journal f (s₁.journal ++ more) :=
        Prod.ext sought grown.symm
      have fails := v.anchoring.anchorFinding_fails home root f
      refine .stops (includes.stops (.inr rfl) fails _) since'
        ((Anchoring.aborts_iff_of_findIn failed).trans ?_)
      constructor
      · rintro ⟨home', root', search, anchor, last, long⟩
        have last' : (log ++ more).getLast? =
            some ⟨.anchor home' v.authority root' search, .ok anchor⟩ := by
          rw [List.getLast?_append, last]
          rfl
        exact .anchor last' long
      · intro overrun
        cases overrun with
        | anchor last long =>
          rw [List.getLast?_append, asked, List.getLast?_append] at last
          cases final : more.getLast? with
          | none =>
            rw [final] at last
            cases last
          | some e =>
            rw [final] at last
            exact ⟨_, _, _, _, last, long⟩
    | ok anchored =>
      obtain ⟨between, searched, established⟩ :=
        Anchoring.findIn_yields.1 (Prod.ext sought grown.symm)
      obtain ⟨mid, rfl⟩ := searched.grown
      have last := established.block.2
      rw [List.append_assoc] at last
      have fetched : log ++ more = (log ++ mid) ++
          [⟨.block v.authority anchored.authorityBlock.height, .ok anchored.authorityBlock⟩] := by
        rw [List.append_cancel_left last, ← established.height, List.append_assoc]
        rfl
      exact runSigned_ending since' fetched
        (includes.record (v.anchoring.anchorFinding_passes home root anchored))
  · exact runSigned_ending since asked (includes.record (anchorNotRequired_passes home))

/-- The layers after the first, for an inclusion that holds. -/
theorem runCommitted_ending {o : Outcome} {p : Inclusion}
    (since : Since (Layer.stateCommitment.before.flatMap Layer.tables) s log s₁)
    (includes : o.Includes Layer.stateCommitment.before) :
    Ending v s (v.runCommitted backend now o p s₁).1 (v.runCommitted backend now o p s₁).2 := by
  have never {log : Journal} {inclusion : Option Inclusion} :
      ¬ Overrun v log inclusion .stateCommitment := fun overrun => nomatch overrun
  unfold runCommitted
  cases Url.parse p.sourcePartition with
  | error e =>
    have fails := Layer.fails_failed .stateCommitment
      (.partitionResolution p.localBlock (some p.sourcePartition))
    refine .stops (includes.stops (.inl rfl) fails _) since (iff_of_false ?_ never)
    by_cases empty : p.sourcePartition = "" <;> simp [Failure.aborts, Failure.kind, empty]
  | ok home =>
    have asks : Asks backend (Anchoring.verifyState backend home p.anchor p.localBlock) :=
      Anchoring.verifyState_asks home p.localBlock
    obtain ⟨more, grown⟩ := asks.grows s₁.journal
    have since' := since.asked more grown.symm
    have found : (Anchoring.verifyState backend home p.anchor p.localBlock s₁.journal).1 =
      Anchoring.stateFinding home p.localBlock
        ((Anchoring.stateCommitment backend home p.anchor p.localBlock).run s₁.journal).1 := rfl
    dsimp only
    rw [asking_bind_apply, found]
    cases asked : ((Anchoring.stateCommitment backend home p.anchor p.localBlock).run
        s₁.journal).1 with
    | error f =>
      have reported := (Anchoring.stateCommitment_within backend home p.anchor p.localBlock
        s₁.journal).not_aborts asked
      have fails := Anchoring.stateFinding_fails home p.localBlock f
      exact .stops (includes.stops (.inl rfl) fails _) since'
        (iff_of_false (by simp [reported]) never)
    | ok block =>
      obtain ⟨given, height, -⟩ :=
        Anchoring.stateCommitment_yields.1 (Prod.ext asked grown.symm)
      have fetched : log ++ more = log ++ [⟨.block home block.height, .ok block⟩] := by
        rw [List.append_cancel_left given.2, height]
      exact runAnchored_ending since' fetched
        (includes.record (Anchoring.stateFinding_passes home p.localBlock block))

/-- How the search for an inclusion ends. -/
inductive FoundEnding (s : State) : Except Failure Inclusion → State → Prop
  | missing {f : Failure} {log : Journal} {s' : State} (kind : f.kind ≠ .chainDiscontinuity)
      (since : Since [] s log s') : FoundEnding s (.error f) s'
  | found {p : Inclusion} {log : Journal} {s' : State} (consistent : p.checkConsistency = .ok ())
      (since : Since [] s log s') : FoundEnding s (.ok p) s'

theorem findInclusion_ending {account : Url} (start : Since [] s log s₁) :
    FoundEnding s (v.findInclusion backend now account s₁).1
      (v.findInclusion backend now account s₁).2 := by
  rw [findInclusion_apply]
  unfold locateInclusion
  rw [asking_bind_apply, Inquiry.run_ask]
  have since := start.asked [⟨.chainHead account v.config.chain,
    backend s₁.journal (.chainHead account v.config.chain)⟩] rfl
  cases answered : backend s₁.journal (.chainHead account v.config.chain) with
  | error cause =>
    rw [answered] at since
    refine .missing ?_ since
    cases cause <;> simp [Failure.kind, QueryError.kind]
  | ok index =>
    rw [answered] at since
    dsimp only [Failure.ofAnswer, Except.mapError]
    rw [lookup_bind_apply]
    have looked := since.looked now .inclusions (positionKey account v.config.chain index)
    cases kept : s₁.cache.peek? .inclusions (positionKey account v.config.chain index) now with
    | some p =>
      obtain ⟨algorithm, holds⟩ := start.checked.of_peek? kept
      refine .found (Inclusion.checkConsistency_eq_ok.2 ?_) looked
      exact ⟨holds.leaf, holds.anchor, holds.localBlock, holds.accepted⟩
    | none =>
      obtain ⟨more, grown⟩ := (Inclusion.build_asks backend account v.config.chain index).grows
        (s₁.journal ++ [⟨.chainHead account v.config.chain, .ok index⟩])
      have asked := looked.asked more grown.symm
      dsimp only
      rw [asking_bind_apply]
      dsimp only
      cases built : ((Inclusion.build backend account v.config.chain index).run
          (s₁.journal ++ [⟨.chainHead account v.config.chain, .ok index⟩])).1 with
      | ok p => exact .found (Inclusion.consistent_of_build (Prod.ext built rfl)) asked
      | error f =>
        refine .missing (fun gap => ?_) asked
        have among := (Inclusion.build_within backend _ _ _).of_fails (Prod.ext built rfl)
        simp [gap] at among

/-- All layers. -/
theorem runLayers_ending {account : Url} (start : Since [] s log s₁) :
    Ending v s (v.runLayers backend now account s₁).1 (v.runLayers backend now account s₁).2 := by
  unfold runLayers
  rw [State.bind_apply]
  have found : FoundEnding s (v.findInclusion backend now account s₁).1
      (v.findInclusion backend now account s₁).2 := findInclusion_ending start
  generalize v.findInclusion backend now account s₁ = result at found ⊢
  obtain ⟨result, s₂⟩ := result
  cases found with
  | @missing f _ _ kind since =>
    dsimp only
    split
    · rename_i aborts
      exact .aborts (.inl ⟨rfl, (Failure.aborts_iff.1 aborts).resolve_right kind⟩) since
    · rename_i reported
      have fails : Layer.entryInclusion.Fails f
          ((Finding.failed Layer.entryInclusion.name f).withDetail
          "scope" (.string account.text)) := by simp
      refine .stops (Outcome.stops_first none rfl fails _) since
        (iff_of_false reported fun overrun => ?_)
      cases overrun with
      | receipt kept => cases kept
  | @found p _ _ consistent since =>
    dsimp only
    cases verdict : p.check v.config.algorithm with
    | ok _ =>
      have passes := Inclusion.finding_passes verdict
      have holds := Inclusion.check_eq_ok.1 verdict
      rw [if_pos passes.valid]
      have before : Since (Layer.stateCommitment.before.flatMap Layer.tables) s _ s₂ :=
        since.mono (List.nil_subset _)
      have receipt := before.stored now .receipts (positionKey p.scope p.chain p.index) p.receipt
        (by decide) trivial
      have stored := receipt.stored now .inclusions (positionKey p.scope p.chain p.index) p
        (by decide) ⟨v.config.algorithm, holds⟩
      exact runCommitted_ending stored
        ⟨.cons passes .nil, rfl, passes.valid, rfl, rfl, rfl, rfl, rfl⟩
    | error f =>
      have fails := Inclusion.finding_fails verdict
      rw [if_neg (by simp [fails.valid])]
      refine .stops (Outcome.stops_first (some p) fails.valid fails _) since
        ((Inclusion.aborts_iff_of_check consistent verdict).trans
          ⟨fun long => .receipt rfl long, fun overrun => ?_⟩)
      cases overrun with
      | receipt kept long =>
        cases kept
        exact long

/-- How the verification of an account ends. -/
inductive Conclusion (v : Verifier) (s : State) : Except Failure Report → State → Prop
  | aborts {layer : Layer} {f : Failure} {log : Journal} {s' : State} (cause : AbortsIn layer f)
      (since : Since (layer.before.flatMap Layer.tables) s log s') : Conclusion v s (.error f) s'
  | stops {layer : Layer} {f : Failure} {o : Outcome} {now : UInt64} {account : Url} {log : Journal}
      {s' : State} (stops : o.StopsAt layer f)
      (since : Since (layer.before.flatMap Layer.tables) s log s')
      (unusable : f.aborts = true ↔ Overrun v log o.inclusion layer) :
      Conclusion v s (.ok (report now account o)) s'
  | verified {r : Report} {log : Journal} {s' : State} (verified : r.verified = true)
      (course : ∃ held failed skipped, r.Course held failed skipped)
      (since : Since (.reports :: Layer.all.flatMap Layer.tables) s log s') :
      Conclusion v s (.ok r) s'

theorem verifyAccount_concludes (account : String) (checked : s.cache.Holds Checked) :
    Conclusion v s (v.verifyAccount backend now account s).1
      (v.verifyAccount backend now account s).2 := by
  unfold verifyAccount unlessReported
  cases parsed : Url.parse account with
  | error e => exact .aborts (.inl ⟨rfl, rfl⟩) (.refl checked)
  | ok u =>
    dsimp only
    rw [lookup_bind_apply]
    cases kept : s.cache.peek? .reports u.text now with
    | some r =>
      obtain ⟨verified, course⟩ := checked.of_peek? kept
      exact .verified verified course ((Since.refl checked).looked _ _ _)
    | none =>
      have looked : Since [] s [] _ := (Since.refl checked).looked now .reports u.text
      dsimp only
      rw [State.bind_apply]
      generalize (⟨(s.cache.get .reports u.text now).2, s.journal⟩ : State) = s₁ at looked ⊢
      have ending : Ending v s (v.runLayers backend now u s₁).1 (v.runLayers backend now u s₁).2 :=
        runLayers_ending looked
      generalize v.runLayers backend now u s₁ = result at ending ⊢
      obtain ⟨result, s₂⟩ := result
      cases ending with
      | aborts cause since => exact .aborts cause since
      | @stops layer f o _ _ stops since unusable =>
        obtain ⟨_, _, _, course, -⟩ := stops.course now u
        have partly : (report now u o).verified = false :=
          Bool.eq_false_iff.2 fun verified => nomatch course.faultless.1 verified
        dsimp only
        rw [if_neg (by simp [partly])]
        exact .stops stops since unusable
      | @completes o _ _ completes since =>
        have course := completes.course now u
        have verified : (report now u o).verified = true := course.faultless.2 rfl
        dsimp only
        rw [if_pos verified]
        exact .verified verified ⟨_, _, _, course⟩
          ((since.mono (by decide)).stored _ _ _ _ (by decide)
          ⟨verified, _, _, _, course⟩)

end

end Verifier

end LightClient
