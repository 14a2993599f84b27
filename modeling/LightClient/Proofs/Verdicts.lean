import LightClient.Proofs.Evidence

/-!
# What a finding says

A finding of a layer that ran either holds or tells one failure, and it is never taken for one of a
layer that was skipped: details are added under other names.
-/
namespace LightClient

namespace Keyed
variable {α : Type} {k key : String} {value : α}

theorem lookup_cons (k' : String) (v : α) (rest : List (String × α)) :
    ((k', v) :: rest).lookup k = if k = k' then some v else rest.lookup k := by
  rw [List.lookup_cons]
  by_cases own : k = k'
  · simp [own]
  · simp [own, beq_eq_false_iff_ne.2 own]

theorem lookup_insertInto (l : List (String × α)) :
    (insertInto key value l).lookup k = if k = key then some value else l.lookup k := by
  induction l with
  | nil => exact lookup_cons key value []
  | cons first rest ih =>
    obtain ⟨k', v⟩ := first
    rw [insertInto]
    split
    · exact lookup_cons key value _
    · split
      · rename_i above
        have other : k' ≠ key := fun same =>
          String.lt_irrefl k' (by rw [same] at above ⊢; exact above)
        rw [lookup_cons, lookup_cons, ih]
        by_cases found : k = k'
        · rw [if_pos found, if_pos found, if_neg (found ▸ other)]
        · rw [if_neg found, if_neg found]
      · rename_i notBelow notAbove
        have same : k' = key :=
          String.le_antisymm (String.not_lt.1 notBelow) (String.not_lt.1 notAbove)
        rw [lookup_cons, lookup_cons, same]
        by_cases own : k = key
        · rw [if_pos own, if_pos own]
        · rw [if_neg own, if_neg own, if_neg own]

theorem get?_insert (m : Keyed α) :
    (m.insert key value).get? k = if k = key then some value else m.get? k :=
  lookup_insertInto m.toList

theorem mem_keys_insert (m : Keyed α) : k ∈ (m.insert key value).keys ↔ k = key ∨ k ∈ m.keys := by
  change k ∈ (insertInto key value m.toList).map (·.1) ↔ k = key ∨ k ∈ m.toList.map (·.1)
  induction m.toList with
  | nil => simp [insertInto]
  | cons first rest ih =>
    obtain ⟨k', v⟩ := first
    rw [insertInto]
    split
    · simp
    · split
      · rw [List.map_cons, List.mem_cons, ih, List.map_cons, List.mem_cons]
        exact or_left_comm
      · rename_i notBelow notAbove
        have same : k' = key :=
          String.le_antisymm (String.not_lt.1 notBelow) (String.not_lt.1 notAbove)
        simp [same]

theorem mem_keys_ofList {bindings : List (String × α)} :
    k ∈ (ofList bindings).keys ↔ k ∈ bindings.map (·.1) := by
  have later (m : Keyed α) : k ∈ (bindings.foldl (fun m b => m.insert b.1 b.2) m).keys ↔
      k ∈ m.keys ∨ k ∈ bindings.map (·.1) := by
    induction bindings generalizing m with
    | nil => simp
    | cons b rest ih =>
      rw [List.foldl_cons, ih, mem_keys_insert, List.map_cons, List.mem_cons, or_assoc]
      exact or_left_comm
  exact (later empty).trans (or_iff_right (List.not_mem_nil))

end Keyed

theorem Finding.detail?_withDetail (x : Finding) (key k : String) (value : Json) :
    (x.withDetail key value).detail? k = if k = key then some value else x.detail? k :=
  Keyed.get?_insert x.details

/-- Details under other names leave a finding what it is. -/
theorem Finding.isSkipped_withDetail (x : Finding) {key : String} (value : Json)
    (other : "skipped" ≠ key) : (x.withDetail key value).isSkipped = x.isSkipped := by
  rw [isSkipped, detail?_withDetail, if_neg other]
  rfl

namespace Layer
variable {layer : Layer} {f : Failure} {x : Finding} {key : String} {value : Json}

/-- The layer has run and holds. -/
structure Passes (layer : Layer) (x : Finding) : Prop where
  layer : x.layer = layer.name
  valid : x.valid = true
  message : x.errorMessage = none
  kind : x.errorKind = none
  ran : x.isSkipped = false

/-- The layer has run and failed for the cause `f`. -/
structure Fails (layer : Layer) (f : Failure) (x : Finding) : Prop where
  layer : x.layer = layer.name
  valid : x.valid = false
  message : x.errorMessage = some f.report
  kind : x.errorKind = some f.kind
  ran : x.isSkipped = false

@[simp] theorem passes_passed (layer : Layer) : layer.Passes (.passed layer.name) :=
  ⟨rfl, rfl, rfl, rfl, rfl⟩

@[simp] theorem fails_failed (layer : Layer) (f : Failure) : layer.Fails f (.failed layer.name f) :=
  ⟨rfl, rfl, rfl, rfl, rfl⟩

@[simp] theorem passes_withDetail (other : "skipped" ≠ key) :
    layer.Passes (x.withDetail key value) ↔ layer.Passes x :=
  have same := x.isSkipped_withDetail value other
  ⟨fun h => ⟨h.layer, h.valid, h.message, h.kind, same.symm.trans h.ran⟩,
    fun h => ⟨h.layer, h.valid, h.message, h.kind, same.trans h.ran⟩⟩

@[simp] theorem fails_withDetail (other : "skipped" ≠ key) :
    layer.Fails f (x.withDetail key value) ↔ layer.Fails f x :=
  have same := x.isSkipped_withDetail value other
  ⟨fun h => ⟨h.layer, h.valid, h.message, h.kind, same.symm.trans h.ran⟩,
    fun h => ⟨h.layer, h.valid, h.message, h.kind, same.trans h.ran⟩⟩

end Layer

namespace Inclusion

theorem finding_passes {algorithm : HashAlgorithm} {p : Inclusion}
    (h : p.check algorithm = .ok ()) :
    Layer.entryInclusion.Passes (p.finding algorithm) := by simp [finding, h]

theorem finding_fails {algorithm : HashAlgorithm} {p : Inclusion} {f : Failure}
    (h : p.check algorithm = .error f) : Layer.entryInclusion.Fails f (p.finding algorithm) := by
  simp [finding, h]

end Inclusion

namespace Anchoring

theorem stateFinding_passes (home : Url) (height : UInt64) (block : Block) :
    Layer.stateCommitment.Passes (stateFinding home height (.ok block)).1 := by simp [stateFinding]

theorem stateFinding_fails (home : Url) (height : UInt64) (f : Failure) :
    Layer.stateCommitment.Fails f (stateFinding home height (.error f)).1 := by simp [stateFinding]

theorem anchorFinding_passes (a : Anchoring) (home : Url) (root : Hash) (anchored : AnchoredRoot) :
    Layer.partitionAnchor.Passes (a.anchorFinding home root (.ok anchored)).1 := by
  simp [anchorFinding]

theorem anchorFinding_fails (a : Anchoring) (home : Url) (root : Hash) (f : Failure) :
    Layer.partitionAnchor.Fails f (a.anchorFinding home root (.error f)).1 := by
  simp [anchorFinding]

end Anchoring

namespace Commit
variable {block : Block} {commit : Commit} {validators : List Validator}

/-- The layer's finding tells what the check of the commit comes to. -/
theorem verify_of_ok {finality : Finality} {t : Tally}
    (h : check block commit validators = .ok (finality, t)) :
    Layer.blockSignatures.Passes (verify block commit validators).1 ∧
      (verify block commit validators).2 = some finality := by
  unfold check at h
  obtain ⟨⟨finality', t'⟩, counted, h⟩ := Failure.bind_eq_ok.1 h
  dsimp only at h
  split at h
  · rename_i quorum
    cases h
    simp [verify, counted, quorum, describeTally, describeBlock]
  · cases h

theorem verify_of_error {f : Failure} (h : check block commit validators = .error f) :
    Layer.blockSignatures.Fails f (verify block commit validators).1 ∧
      (verify block commit validators).2 = none := by
  unfold check at h
  cases counted : tally block commit validators with
  | error cause =>
    rw [counted] at h
    cases h
    simp [verify, counted, describeBlock, failedFinding]
  | ok result =>
    obtain ⟨finality, t⟩ := result
    rw [counted] at h
    change (if t.hasQuorum = true then _ else _) = _ at h
    split at h
    · cases h
    · rename_i below
      cases h
      simp [verify, counted, below, describeTally, describeBlock]

theorem fetchedFinding_of_ok {p : Url} {finality : Finality} {t : Tally}
    (h : check block commit validators = .ok (finality, t)) :
    Layer.blockSignatures.Passes (fetchedFinding p block (.ok (validators, commit))).1 ∧
      (fetchedFinding p block (.ok (validators, commit))).2 = some finality := by
  simpa [fetchedFinding] using verify_of_ok h

theorem fetchedFinding_of_error {p : Url} {f : Failure}
    (h : check block commit validators = .error f) :
    Layer.blockSignatures.Fails f (fetchedFinding p block (.ok (validators, commit))).1 ∧
      (fetchedFinding p block (.ok (validators, commit))).2 = none := by
  simpa [fetchedFinding] using verify_of_error h

theorem fetchedFinding_unfetched (partition : Url) (block : Block) (f : Failure) :
    Layer.blockSignatures.Fails f (fetchedFinding partition block (.error f)).1 := by
  simp [fetchedFinding, failedFinding]

end Commit

namespace Verifier

theorem rememberedFinality_passes (partition : Url) (block : Block) (finality : Finality) :
    Layer.blockSignatures.Passes (rememberedFinality partition block finality) := by
  simp [rememberedFinality]

theorem unboundFinding_fails (partition : Url) (block : Block) (f : Failure) :
    Layer.blockSignatures.Fails f (Uncached.unboundFinding partition block f) := by
  simp [Uncached.unboundFinding]

theorem anchorNotRequired_passes (home : Url) :
    Layer.partitionAnchor.Passes (anchorNotRequired home) := by simp [anchorNotRequired]

theorem finding_passes (trace : GenesisTrace) : Layer.genesisTrust.Passes trace.finding := by
  simp [GenesisTrace.finding]

end Verifier

end LightClient
