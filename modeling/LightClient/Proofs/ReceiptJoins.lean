import LightClient.Proofs.ReceiptPaths

/-!
# Joined receipts

A receipt that starts where another one ends continues it, and the path of both leads from the start
of the first to the anchor of the second. How receipts are put together makes no difference, and the
whole is intact if both parts are, as long as the limit on the length of a path allows it. Joining
does not look at the limit, so two intact receipts can make up a whole that is refused.
-/
namespace LightClient.Receipt

variable {algorithm : HashAlgorithm}

/-- The second receipt starts where the first one ends. -/
def Meets (first second : Receipt) : Prop := first.anchor = second.start

/-- The receipt over the paths of both. -/
def join (first second : Receipt) : Receipt :=
  ⟨first.start, second.anchor, second.localBlock, first.steps ++ second.steps⟩

theorem combine_of_meets {first second : Receipt} (meets : first.Meets second) :
    first.combine second = .ok (first.join second) := if_pos meets

/-- Receipts are joined alike from the front and from the back. -/
theorem combine_assoc {first second third : Receipt} (meets : first.Meets second)
    (meets' : second.Meets third) :
    (first.combine second >>= fun front => front.combine third) =
      (second.combine third >>= fun back => first.combine back) := by
  have front : (first.join second).Meets third := meets'
  have back : first.Meets (second.join third) := meets
  rw [combine_of_meets meets, combine_of_meets meets']
  change (first.join second).combine third = first.combine (second.join third)
  rw [combine_of_meets front, combine_of_meets back]
  simp only [join, List.append_assoc]

theorem replay_append (start : Hash) (steps more : List Step) :
    replay algorithm start (steps ++ more) = replay algorithm (replay algorithm start steps) more :=
  List.foldl_append

/-- The path over both parts leads to the last anchor, whatever its length. -/
theorem root_join {first second : Receipt} (meets : first.Meets second)
    (reaches : first.root algorithm = first.anchor)
    (reaches' : second.root algorithm = second.anchor) :
    (first.join second).root algorithm = (first.join second).anchor :=
  calc (first.join second).root algorithm
      = replay algorithm (first.root algorithm) second.steps := replay_append _ _ _
    _ = replay algorithm second.start second.steps := by
      rw [reaches, show first.anchor = _ from meets]
    _ = second.anchor := reaches'

theorem meets_along (first : Receipt) (localBlock : UInt64) (steps : List Step) :
    first.Meets (along algorithm first.anchor localBlock steps) := rfl

theorem isIntact_join {first second : Receipt} (meets : first.Meets second)
    (intact : first.Replays algorithm) (intact' : second.Replays algorithm) :
    (first.join second).isIntact algorithm =
      if first.steps.length + second.steps.length ≤ maxSteps then .ok true
      else .error (.malformed
      s!"receipt has {first.steps.length + second.steps.length} entries, limit is {maxSteps}") := by
  have length : (first.join second).steps.length = first.steps.length + second.steps.length :=
    List.length_append
  split
  · rename_i short
    exact isIntact_eq_true.2 ⟨length ▸ short, root_join meets intact.reaches intact'.reaches⟩
  · rename_i long
    rw [isIntact_of_long (length ▸ Nat.lt_of_not_le long), length]

/-- Intact receipts that meet can be combined, and the path of the whole leads from the start of the
first to the anchor of the second. The whole is intact exactly if both paths together keep to the
limit; above it, it is refused as too long. Three of them are combined to the same receipt from the
front and from the back. -/
theorem combined_intact_up_to_limit (algorithm : HashAlgorithm) :
    (∀ first second : Receipt, first.isIntact algorithm = .ok true →
      second.isIntact algorithm = .ok true → first.anchor = second.start →
        ∃ whole, first.combine second = .ok whole ∧ whole.start = first.start ∧
          whole.anchor = second.anchor ∧ whole.localBlock = second.localBlock ∧
          whole.root algorithm = whole.anchor ∧
          whole.isIntact algorithm =
          if first.steps.length + second.steps.length ≤ maxSteps then .ok true
          else .error (.malformed
          s!"receipt has {first.steps.length + second.steps.length} entries, limit is {maxSteps}")) ∧
    (∀ first second third : Receipt, first.isIntact algorithm = .ok true →
      second.isIntact algorithm = .ok true → third.isIntact algorithm = .ok true →
      first.anchor = second.start → second.anchor = third.start →
        ∃ whole, (first.combine second >>= fun front => front.combine third) = .ok whole ∧
          (second.combine third >>= fun back => first.combine back) = .ok whole) := by
  constructor
  · intro first second intact intact' meets
    have replays := isIntact_eq_true.1 intact
    have replays' := isIntact_eq_true.1 intact'
    exact ⟨first.join second, combine_of_meets meets, rfl, rfl, rfl,
      root_join meets replays.reaches replays'.reaches, isIntact_join meets replays replays'⟩
  · intro first second third _ _ _ meets meets'
    have back : first.Meets (second.join third) := meets
    have whole : (second.combine third >>= fun back => first.combine back) =
        .ok (first.join (second.join third)) := by
      rw [combine_of_meets meets']
      exact combine_of_meets back
    exact ⟨first.join (second.join third), (combine_assoc meets meets').trans whole, whole⟩

namespace Sample

/-- A receipt with the longest path that is looked at. -/
def full : Receipt := along .sha256 leaf 1 (List.replicate maxSteps ⟨.zero, true⟩)

/-- One step on from there. -/
def extra : Receipt := along .sha256 full.anchor 2 [⟨.zero, true⟩]

/-- One step on from the short receipt. -/
def onward : Receipt := along .sha256 honest.anchor 2 [⟨leaf, true⟩]

/-- No step on from there. -/
def arrived : Receipt := along .sha256 onward.anchor 3 []

theorem full_isIntact : full.isIntact .sha256 = .ok true :=
  along_isIntact (Nat.le_of_eq List.length_replicate)

theorem extra_isIntact : extra.isIntact .sha256 = .ok true := along_isIntact (by decide)

theorem full_meets_extra : full.Meets extra := meets_along full 2 _

end Sample

open Sample in
/-- Three short receipts that meet. -/
theorem short_receipts_combined :
    (honest.isIntact .sha256 = .ok true ∧ onward.isIntact .sha256 = .ok true ∧
      arrived.isIntact .sha256 = .ok true ∧ honest.anchor = onward.start ∧
        onward.anchor = arrived.start) ∧
    (∃ whole, honest.combine onward = .ok whole ∧ whole.localBlock = 2 ∧
      whole.isIntact .sha256 = .ok true) ∧
    ∃ whole, (honest.combine onward >>= fun front => front.combine arrived) = .ok whole ∧
      (onward.combine arrived >>= fun back => honest.combine back) = .ok whole := by
  obtain ⟨combined, assoc⟩ := combined_intact_up_to_limit .sha256
  have first : honest.isIntact .sha256 = .ok true := along_isIntact (by decide)
  have second : onward.isIntact .sha256 = .ok true := along_isIntact (by decide)
  have third : arrived.isIntact .sha256 = .ok true := along_isIntact (by decide)
  obtain ⟨whole, joined, -, -, recorded, -, intact⟩ := combined honest onward first second rfl
  exact ⟨⟨first, second, third, rfl, rfl⟩, ⟨whole, joined, recorded, intact⟩,
    assoc honest onward arrived first second third rfl rfl⟩

open Sample in
/-- Two intact receipts that meet, of which the whole is not intact. -/
theorem combined_beyond_limit :
    full.isIntact .sha256 = .ok true ∧ extra.isIntact .sha256 = .ok true ∧
      full.anchor = extra.start ∧
        ∃ whole, full.combine extra = .ok whole ∧ whole.isIntact .sha256 ≠ .ok true := by
  refine ⟨full_isIntact, extra_isIntact, full_meets_extra, full.join extra,
    combine_of_meets full_meets_extra, ?_⟩
  have long : maxSteps < (full.join extra).steps.length := by
    rw [show (full.join extra).steps.length = maxSteps + 1 from
      List.length_append.trans (congrArg (· + 1) List.length_replicate)]
    exact Nat.lt_succ_self _
  rw [isIntact_of_long long]
  exact fun unequal => by cases unequal

end LightClient.Receipt
