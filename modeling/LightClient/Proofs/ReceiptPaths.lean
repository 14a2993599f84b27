import LightClient.Proofs.Collision
import LightClient.Proofs.Layers
import LightClient.Proofs.Sample

/-!
# Paths of receipts

A receipt is intact if its path is short enough and leads from the start to the anchor. Every step
of a path hashes two hashes in the order that the side tells. So two intact receipts with one anchor
and the same sides agree in their starts and siblings, or two messages that their paths hash
collide, and an intact receipt that is changed is intact no longer.
-/
namespace LightClient.Receipt

variable {algorithm : HashAlgorithm}

/-- What a step hashes. -/
def Step.message (current : Hash) (step : Step) : Bytes :=
  if step.onRight then current.bytes ++ step.sibling.bytes else step.sibling.bytes ++ current.bytes

theorem Step.apply_eq_digest (algorithm : HashAlgorithm) (current : Hash) (step : Step) :
    step.apply algorithm current = algorithm.digest (step.message current) := by
  unfold Step.apply Step.message HashAlgorithm.combine
  split <;> rfl

theorem Step.length_message (current : Hash) (step : Step) :
    (step.message current).length = 64 := by
  unfold Step.message
  split <;> rw [List.length_append, current.length_bytes, step.sibling.length_bytes]

/-- With the side known, a message tells the running hash and the sibling. -/
theorem Step.message_injective {current current' : Hash} {step step' : Step}
    (side : step.onRight = step'.onRight) (same : step.message current = step'.message current') :
    current = current' ∧ step = step' := by
  obtain ⟨sibling, onRight⟩ := step
  obtain ⟨sibling', onRight'⟩ := step'
  obtain rfl : onRight = onRight' := side
  cases onRight with
  | true =>
    obtain ⟨rfl, rfl⟩ :=
      Hash.pair_injective (show current.bytes ++ _ = current'.bytes ++ _ from same)
    exact ⟨rfl, rfl⟩
  | false =>
    obtain ⟨rfl, rfl⟩ :=
      Hash.pair_injective (show sibling.bytes ++ _ = sibling'.bytes ++ _ from same)
    exact ⟨rfl, rfl⟩

/-- The messages that are hashed along a path, from the start on. -/
def pathMessages (algorithm : HashAlgorithm) : Hash → List Step → List Bytes
  | _, [] => []
  | current, step :: rest =>
    step.message current :: pathMessages algorithm (step.apply algorithm current) rest

theorem length_of_mem_pathMessages {start : Hash} {steps : List Step} {message : Bytes}
    (member : message ∈ pathMessages algorithm start steps) : message.length = 64 := by
  induction steps generalizing start with
  | nil => cases member
  | cons step rest ih =>
    rcases List.mem_cons.1 member with rfl | later
    · exact step.length_message start
    · exact ih later

/-- Two paths with the same sides that reach one root are the same path, or messages on them
collide. -/
theorem replay_agrees {start start' : Hash} {steps steps' : List Step}
    (sides : steps.map Step.onRight = steps'.map Step.onRight)
    (same : replay algorithm start steps = replay algorithm start' steps') :
    (start = start' ∧ steps = steps') ∨
      algorithm.Collision (pathMessages algorithm start steps)
        (pathMessages algorithm start' steps') := by
  induction steps generalizing start start' steps' with
  | nil =>
    obtain rfl : steps' = [] := List.map_eq_nil_iff.1 sides.symm
    exact .inl ⟨same, rfl⟩
  | cons step rest ih =>
    cases steps' with
    | nil => cases sides
    | cons step' rest' =>
      obtain ⟨side, sides⟩ := List.cons.inj sides
      -- Above the first step the paths agree already, so its two messages have one digest.
      rcases ih sides same with ⟨applied, rfl⟩ | collision
      · rw [Step.apply_eq_digest, Step.apply_eq_digest] at applied
        rcases HashAlgorithm.eq_or_collision List.mem_cons_self List.mem_cons_self applied
          with message | collision
        · obtain ⟨rfl, rfl⟩ := Step.message_injective side message
          exact .inl ⟨rfl, rfl⟩
        · exact .inr collision
      · exact .inr (collision.mono (List.subset_cons_self _ _) (List.subset_cons_self _ _))

theorem isIntact_of_short {r : Receipt} (short : r.steps.length ≤ maxSteps) :
    r.isIntact algorithm = .ok (r.root algorithm = r.anchor) := if_neg (Nat.not_lt.2 short)

theorem isIntact_of_long {r : Receipt} (long : maxSteps < r.steps.length) :
    r.isIntact algorithm =
      .error (.malformed s!"receipt has {r.steps.length} entries, limit is {maxSteps}") :=
  if_pos long

theorem isIntact_eq_false {r : Receipt} (short : r.steps.length ≤ maxSteps) :
    r.isIntact algorithm = .ok false ↔ r.root algorithm ≠ r.anchor := by
  rw [isIntact_of_short short, Except.ok.injEq, decide_eq_false_iff_not]

/-- The sides of the siblings, from the start on. -/
def sides (r : Receipt) : List Bool := r.steps.map Step.onRight

/-- The siblings, from the start on. -/
def siblings (r : Receipt) : List Hash := r.steps.map Step.sibling

/-- What is hashed to check the receipt. -/
def messages (algorithm : HashAlgorithm) (r : Receipt) : List Bytes :=
  pathMessages algorithm r.start r.steps

theorem length_eq_of_sides {r r' : Receipt} (same : r.sides = r'.sides) :
    r.steps.length = r'.steps.length := by
  have lengths := congrArg List.length same
  rwa [sides, sides, List.length_map, List.length_map] at lengths

/-- Receipts that lead to one anchor along the same sides agree, or their messages collide. -/
theorem agree_of_replays {r r' : Receipt} (anchor : r.anchor = r'.anchor)
    (same : r.sides = r'.sides) (intact : r.Replays algorithm) (intact' : r'.Replays algorithm) :
    (r.start = r'.start ∧ r.siblings = r'.siblings) ∨
      algorithm.Collision (r.messages algorithm) (r'.messages algorithm) := by
  rcases replay_agrees same (intact.reaches.trans (anchor.trans intact'.reaches.symm))
    with ⟨start, steps⟩ | collision
  · exact .inl ⟨start, congrArg (List.map Step.sibling) steps⟩
  · exact .inr collision

/-- An anchor and the sides of a path leave only one start and one list of siblings for an intact
receipt, unless two of the messages hashed collide, all of which have 64 bytes. So an intact receipt
with the start or siblings changed does not lead to its anchor, and neither does one with the anchor
changed. -/
theorem anchor_determines_path (algorithm : HashAlgorithm) :
    (∀ r r' : Receipt, r.anchor = r'.anchor → r.sides = r'.sides →
      r.isIntact algorithm = .ok true → r'.isIntact algorithm = .ok true →
        (r.start = r'.start ∧ r.siblings = r'.siblings) ∨
          algorithm.Collision (r.messages algorithm) (r'.messages algorithm)) ∧
    (∀ r r' : Receipt, r.isIntact algorithm = .ok true → r'.anchor = r.anchor → r'.sides = r.sides →
      r'.start ≠ r.start ∨ r'.siblings ≠ r.siblings →
        r'.isIntact algorithm = .ok false ∨
          algorithm.Collision (r.messages algorithm) (r'.messages algorithm)) ∧
    (∀ (r : Receipt) (anchor : Hash), r.isIntact algorithm = .ok true → anchor ≠ r.anchor →
      { r with anchor }.isIntact algorithm = .ok false) ∧
    (∀ (r : Receipt) (message : Bytes), message ∈ r.messages algorithm → message.length = 64) := by
  refine ⟨?_, ?_, ?_, fun r message member => length_of_mem_pathMessages member⟩
  · intro r r' anchor same intact intact'
    exact agree_of_replays anchor same (isIntact_eq_true.1 intact) (isIntact_eq_true.1 intact')
  · intro r r' intact anchor same changed
    have replays := isIntact_eq_true.1 intact
    have short : r'.steps.length ≤ maxSteps := length_eq_of_sides same ▸ replays.short
    by_cases reaches : r'.root algorithm = r'.anchor
    · rcases agree_of_replays anchor.symm same.symm replays ⟨short, reaches⟩
        with ⟨start, siblings⟩ | collision
      · rcases changed with other | other
        · exact absurd start.symm other
        · exact absurd siblings.symm other
      · exact .inr collision
    · exact .inl ((isIntact_eq_false short).2 reaches)
  · intro r anchor intact other
    have replays := isIntact_eq_true.1 intact
    have short : { r with anchor }.steps.length ≤ maxSteps := replays.short
    refine (isIntact_eq_false short).2 fun reaches => other ?_
    exact (show r.root algorithm = anchor from reaches).symm.trans replays.reaches

/-- The receipt of a path: it names the root that the path leads to. -/
def along (algorithm : HashAlgorithm) (start : Hash) (localBlock : UInt64) (steps : List Step) :
    Receipt := ⟨start, replay algorithm start steps, localBlock, steps⟩

theorem along_isIntact {start : Hash} {localBlock : UInt64} {steps : List Step}
    (short : steps.length ≤ maxSteps) :
    (along algorithm start localBlock steps).isIntact algorithm = .ok true :=
  isIntact_eq_true.2 ⟨short, rfl⟩

namespace Sample

/-- What the receipts start from. -/
def leaf : Hash := Session.Sample.root

/-- A receipt with a sibling on each side. -/
def honest : Receipt := along .sha256 leaf 1 [⟨.zero, true⟩, ⟨leaf, false⟩]

/-- The same receipt as another block reports it. -/
def rerecorded : Receipt := { honest with localBlock := 2 }

/-- The receipt with another first sibling. -/
def forged : Receipt := { honest with steps := [⟨leaf, true⟩, ⟨leaf, false⟩] }

/-- A receipt without siblings. -/
def single : Receipt := along .sha256 leaf 1 []

end Sample

open Sample in
/-- Two reports of a receipt, and changes of a sibling and of an anchor. -/
theorem anchor_determines_honest_path :
    (honest.anchor = rerecorded.anchor ∧ honest.sides = rerecorded.sides ∧
      honest.isIntact .sha256 = .ok true ∧ rerecorded.isIntact .sha256 = .ok true ∧
        ((honest.start = rerecorded.start ∧ honest.siblings = rerecorded.siblings) ∨
          HashAlgorithm.sha256.Collision (honest.messages .sha256) (rerecorded.messages .sha256))) ∧
    (forged.anchor = honest.anchor ∧ forged.sides = honest.sides ∧
      forged.siblings ≠ honest.siblings ∧
      (forged.isIntact .sha256 = .ok false ∨
        HashAlgorithm.sha256.Collision (honest.messages .sha256) (forged.messages .sha256))) ∧
    (single.isIntact .sha256 = .ok true ∧ Hash.zero ≠ single.anchor ∧
      { single with anchor := .zero }.isIntact .sha256 = .ok false) ∧
    ((Step.mk .zero true).message leaf ∈ honest.messages .sha256 ∧
      ((Step.mk .zero true).message leaf).length = 64) := by
  obtain ⟨agrees, breaks, moved, sizes⟩ := anchor_determines_path .sha256
  have intact : honest.isIntact .sha256 = .ok true := along_isIntact (by decide)
  have intact' : rerecorded.isIntact .sha256 = .ok true := intact
  have alone : single.isIntact .sha256 = .ok true := along_isIntact (by decide)
  have changed : forged.siblings ≠ honest.siblings := by decide
  have other : Hash.zero ≠ single.anchor := by decide
  have member : (Step.mk .zero true).message leaf ∈ honest.messages .sha256 :=
    List.mem_cons_self
  exact ⟨⟨rfl, rfl, intact, intact', agrees honest rerecorded rfl rfl intact intact'⟩,
    ⟨rfl, rfl, changed, breaks honest forged intact rfl rfl (.inr changed)⟩,
    ⟨alone, other, moved single .zero alone other⟩, member, sizes honest _ member⟩

end LightClient.Receipt
