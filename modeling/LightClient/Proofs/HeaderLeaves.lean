import LightClient.Proofs.HeaderPaths

/-!
# The leaves under a header root

A root commits to the whole list that its tree is over: to the number of leaves and to each of them
in its place. What is hashed for a root starts with another byte for a leaf than for an inner node,
and is empty only for the empty list. So two trees with one root have the same form at the top,
whatever their sizes are, and as the halves have the same roots again they can be compared from the
root down.
-/
namespace LightClient.HeaderTree

/-- The message that the root is the digest of. -/
def rootMessage : List Bytes → Bytes
  | [] => []
  | [leaf] => leafMessage leaf
  | first :: second :: rest =>
    let leaves := first :: second :: rest
    innerMessage (root (leaves.take (splitPoint leaves.length)))
      (root (leaves.drop (splitPoint leaves.length)))

theorem root_eq_digest (leaves : List Bytes) :
    root leaves = HashAlgorithm.sha256.digest (rootMessage leaves) := by
  match leaves with
  | [] => rw [root, rootMessage]
  | [leaf] => rw [root, rootMessage, leafHash, leafMessage]
  | first :: second :: rest => rw [root, rootMessage, innerHash, innerMessage]

theorem rootMessage_mem (leaves : List Bytes) : rootMessage leaves ∈ treeMessages leaves := by
  match leaves with
  | [] => rw [treeMessages, rootMessage]; exact List.mem_singleton_self _
  | [leaf] => rw [treeMessages, rootMessage]; exact List.mem_singleton_self _
  | first :: second :: rest => rw [treeMessages, rootMessage]; exact List.mem_cons_self

/-- A leaf is not read as an inner node. -/
theorem leafMessage_ne_innerMessage {leaf : Bytes} {left right : Hash} :
    leafMessage leaf ≠ innerMessage left right := fun same =>
  absurd (List.cons.inj same).1 (by decide)

/-- Two lists of several leaves each that are split into halves with the same roots. -/
structure SameHalves (a b : List Bytes) : Prop where
  left : root (a.take (splitPoint a.length)) = root (b.take (splitPoint b.length))
  right : root (a.drop (splitPoint a.length)) = root (b.drop (splitPoint b.length))

/-- One message for both roots leaves no choice of form. -/
theorem sameHalves_of_rootMessage {a b : List Bytes} (same : rootMessage a = rootMessage b) :
    a = b ∨ 2 ≤ a.length ∧ 2 ≤ b.length ∧ SameHalves a b := by
  match a, b with
  | [], [] => exact .inl rfl
  | [], [_] => cases same
  | [], _ :: _ :: _ => cases same
  | [_], [] => cases same
  | [leaf], [leaf'] => exact .inl (congrArg (fun leaf => [leaf]) (List.cons.inj same).2)
  | [_], _ :: _ :: _ => exact absurd same leafMessage_ne_innerMessage
  | _ :: _ :: _, [] => cases same
  | _ :: _ :: _, [_] => exact absurd same.symm leafMessage_ne_innerMessage
  | _ :: _ :: _, _ :: _ :: _ =>
    obtain ⟨left, right⟩ := innerMessage_injective same
    exact .inr ⟨by simp, by simp, left, right⟩

/-- What is hashed for the halves of a tree is hashed for the tree. -/
theorem treeMessages_halves {leaves : List Bytes} (several : 2 ≤ leaves.length) :
    treeMessages (leaves.take (splitPoint leaves.length)) ⊆ treeMessages leaves ∧
      treeMessages (leaves.drop (splitPoint leaves.length)) ⊆ treeMessages leaves := by
  match leaves, several with
  | first :: second :: rest, _ =>
    rw [treeMessages]
    constructor
    · exact List.subset_cons_of_subset _ (List.subset_append_left _ _)
    · exact List.subset_cons_of_subset _ (List.subset_append_right _ _)

/-- Lists with one root, of any and maybe of different lengths, are the same list, or two different
messages that are hashed for them collide. -/
theorem root_determines_leaves (a b : List Bytes) (same : root a = root b) :
    a = b ∨ HashAlgorithm.sha256.Collision (treeMessages a) (treeMessages b) := by
  -- The induction is on the size of the first tree; that of the second one is not compared with it.
  induction length : a.length using Nat.strongRecOn generalizing a b with
  | ind size ih =>
    rw [root_eq_digest a, root_eq_digest b] at same
    rcases HashAlgorithm.eq_or_collision (rootMessage_mem a) (rootMessage_mem b) same
      with message | collision
    · rcases sameHalves_of_rootMessage message with equal | ⟨several, several', halves⟩
      · exact .inl equal
      · have low := splitPoint_pos several
        have high := splitPoint_lt several
        obtain ⟨messages, messages₁⟩ := treeMessages_halves several
        obtain ⟨messages', messages₁'⟩ := treeMessages_halves several'
        rcases ih _ (by rw [List.length_take]; omega) _ _ halves.left rfl with left | collision
        · rcases ih _ (by rw [List.length_drop]; omega) _ _ halves.right rfl with right | collision
          · left
            rw [← List.take_append_drop (splitPoint a.length) a, left, right, List.take_append_drop]
          · exact .inr (collision.mono messages₁ messages₁')
        · exact .inr (collision.mono messages messages')
    · exact .inr collision

open Sample in
/-- The root over three leaves tells their number and their order. -/
theorem root_determines_unbalanced :
    root unbalanced = root ([[1], [2]] ++ [[3]]) ∧
      (unbalanced = [[1], [2]] ++ [[3]] ∨
        HashAlgorithm.sha256.Collision (treeMessages unbalanced)
          (treeMessages ([[1], [2]] ++ [[3]]))) :=
  ⟨rfl, root_determines_leaves unbalanced ([[1], [2]] ++ [[3]]) rfl⟩

end LightClient.HeaderTree
