import LightClient.Proofs.HeaderBinding

/-!
# Paths of the header tree

A tree over a list of leaves has one path for each leaf: the hashes of the halves that the leaf is
not in. This path leads to the root, any other one that does so exhibits a collision, and a path has
to be as long as its leaf lies deep. All of them are recursions along the halves with the leaf,
whatever size the tree has.
-/
namespace LightClient.HeaderTree

theorem placeBelow_size_lt (index : Nat) {total : Nat} (several : 2 ≤ total) :
    (placeBelow index total).2 < total := by
  have low := splitPoint_pos several
  have high := splitPoint_lt several
  unfold placeBelow
  split
  · exact high
  · exact Nat.sub_lt (by omega) low

/-- The hashes of the halves without the leaf at `index`, from the leaf outward. -/
def siblings (index : Nat) (leaves : List Bytes) : List Hash :=
  if 2 ≤ leaves.length then
    siblings (placeBelow index leaves.length).1 (halves index leaves).1
      ++ [root (halves index leaves).2]
  else []
termination_by leaves.length
decreasing_by
  rename_i several
  rw [(halves_place index several).1]
  exact placeBelow_size_lt index several

/-- The number of inner nodes above the leaf at `index` of `total`. -/
def depth (index total : Nat) : Nat :=
  if 2 ≤ total then depth (placeBelow index total).1 (placeBelow index total).2 + 1 else 0
termination_by total
decreasing_by
  rename_i several
  exact placeBelow_size_lt index several

/-- A place in the tree is a place in the half below. -/
theorem placeBelow_lt {index total : Nat} (inside : index < total) :
    (placeBelow index total).1 < (placeBelow index total).2 := by
  unfold placeBelow
  split
  · assumption
  · dsimp only
    omega

theorem root_of_single {leaves : List Bytes} {leaf : Bytes} (single : leaves.length < 2)
    {index : Nat} (found : leaves[index]? = some leaf) : index = 0 ∧ leaves = [leaf] := by
  obtain ⟨inside, rfl⟩ := List.getElem?_eq_some_iff.1 found
  obtain ⟨only, rfl⟩ := List.length_eq_one_iff.1 (show leaves.length = 1 by omega)
  obtain rfl : index = 0 := by simpa using inside
  exact ⟨rfl, rfl⟩

/-- The siblings of a leaf lead to the root, and on the way nothing is hashed but nodes of the
tree. -/
theorem path_of_siblings {index : Nat} {leaves : List Bytes} {leaf : Bytes}
    (found : leaves[index]? = some leaf) :
    rootFromOutermost? index leaves.length (leafHash leaf) (siblings index leaves).reverse
        = some (root leaves) ∧
      pathMessages index leaves.length (leafHash leaf) (siblings index leaves).reverse
        ⊆ treeMessages leaves := by
  fun_induction siblings index leaves with
  | case1 index leaves several ih =>
    obtain ⟨length, same⟩ := halves_place index several
    obtain ⟨rooted, message, messages⟩ := root_eq_halves index several
    obtain ⟨below, inner⟩ := ih (same.trans found)
    rw [length] at below inner
    rw [List.reverse_append, List.reverse_singleton, List.singleton_append]
    have inside : index < leaves.length := (List.getElem?_eq_some_iff.1 found).1
    constructor
    · exact rootFromOutermost?_cons.2 ⟨inside, by omega, _, below, rooted.symm⟩
    · rw [pathMessages_cons below]
      exact List.cons_subset.2 ⟨message, List.Subset.trans inner messages⟩
  | case2 index leaves single =>
    obtain ⟨rfl, rfl⟩ := root_of_single (by omega) found
    exact ⟨rootFromOutermost?_nil.2 ⟨rfl, rfl, by rw [root]⟩, List.nil_subset _⟩

/-- There is a root exactly for paths that are as long as the leaf lies deep. -/
theorem isSome_rootFromOutermost? {index total : Nat} {leaf : Hash} {aunts : List Hash} :
    (rootFromOutermost? index total leaf aunts).isSome = true ↔
      index < total ∧ aunts.length = depth index total := by
  induction aunts generalizing index total with
  | nil =>
    rw [Option.isSome_iff_exists, depth]
    simp only [rootFromOutermost?_nil, List.length_nil]
    constructor
    · rintro ⟨_, rfl, rfl, -⟩
      exact ⟨Nat.one_pos, rfl⟩
    · rintro ⟨inside, shallow⟩
      split at shallow
      · cases shallow
      · exact ⟨leaf, by omega, by omega, rfl⟩
  | cons aunt rest ih =>
    rw [Option.isSome_iff_exists, depth]
    simp only [rootFromOutermost?_cons, List.length_cons]
    constructor
    · rintro ⟨_, inside, several, child, below, -⟩
      obtain ⟨-, deep⟩ := ih.1 (Option.isSome_of_eq_some below)
      rw [if_pos (by omega), deep]
      exact ⟨inside, rfl⟩
    · rintro ⟨inside, deep⟩
      split at deep
      · rename_i several
        obtain ⟨child, below⟩ := Option.isSome_iff_exists.1
          (ih.2 ⟨placeBelow_lt inside, Nat.succ.inj deep⟩)
        exact ⟨_, inside, by omega, child, below, rfl⟩
      · cases deep

/-- A leaf has as many siblings as it has inner nodes above it. -/
theorem length_siblings {index : Nat} {leaves : List Bytes} (inside : index < leaves.length) :
    (siblings index leaves).length = depth index leaves.length := by
  have path := (path_of_siblings (List.getElem?_eq_getElem inside)).1
  have deep := (isSome_rootFromOutermost?.1 (Option.isSome_of_eq_some path)).2
  rwa [List.length_reverse] at deep

/-- A path to the root of a tree is that of the leaf in its place, or it collides with the tree. -/
theorem path_unique {index : Nat} {leaves : List Bytes} {leaf : Bytes} {start : Hash}
    {aunts : List Hash} (found : leaves[index]? = some leaf)
    (path : rootFromOutermost? index leaves.length start aunts = some (root leaves)) :
    (start = leafHash leaf ∧ aunts = (siblings index leaves).reverse) ∨
      HashAlgorithm.sha256.Collision (pathMessages index leaves.length start aunts)
        (treeMessages leaves) := by
  obtain ⟨own, inner⟩ := path_of_siblings found
  rcases paths_agree path own with same | collision
  · exact .inl same
  · exact .inr (collision.mono (List.Subset.refl _) inner)

/-- In a tree of any size, the siblings of a leaf lead from its hash to the root. Any hash with any
list of siblings that leads from its place to the root is this hash with these siblings, or a
message on the way collides with one of the tree. And whatever the place and the size, there is a
root exactly if the place is inside and there are as many siblings as the leaf lies deep. -/
theorem rootFromAunts?_iff_siblings :
    (∀ (leaves : List Bytes) (index total : UInt64) (leaf : Bytes), leaves.length = total.toNat →
      leaves[index.toNat]? = some leaf →
        rootFromAunts? index total (leafHash leaf) (siblings index.toNat leaves) =
          some (root leaves) ∧
        ∀ start aunts, rootFromAunts? index total start aunts = some (root leaves) →
          (start = leafHash leaf ∧ aunts = siblings index.toNat leaves) ∨
            HashAlgorithm.sha256.Collision
              (pathMessages index.toNat total.toNat start aunts.reverse) (treeMessages leaves)) ∧
    (∀ (index total : UInt64) (start : Hash) (aunts : List Hash),
      (rootFromAunts? index total start aunts).isSome = true ↔
        index < total ∧ aunts.length = depth index.toNat total.toNat) ∧
    (∀ (index : Nat) (leaves : List Bytes), index < leaves.length →
      (siblings index leaves).length = depth index leaves.length) := by
  refine ⟨?_, ?_, fun index leaves inside => length_siblings inside⟩
  · intro leaves index total leaf size found
    unfold rootFromAunts?
    rw [← size]
    refine ⟨(path_of_siblings found).1, fun start aunts path => ?_⟩
    rcases path_unique found path with ⟨same, reversed⟩ | collision
    · exact .inl ⟨same, List.reverse_inj.1 reversed⟩
    · exact .inr collision
  · intro index total start aunts
    rw [rootFromAunts?, isSome_rootFromOutermost?, List.length_reverse, UInt64.lt_iff_toNat_lt]

namespace Sample

/-- The smallest tree whose leaves do not all lie at one depth. -/
def unbalanced : List Bytes := [[1], [2], [3]]

theorem depth_unbalanced : depth 0 3 = 2 ∧ depth 2 3 = 1 := by
  have splits : splitPoint 3 = 2 ∧ splitPoint 2 = 1 := by decide
  constructor <;> simp [depth, placeBelow, splits]

end Sample

open Sample in
/-- The sibling of the last leaf leads to the root, and nothing else does without a collision. The
path of the first leaf is too long for the place of the last. -/
theorem rootFromAunts?_unbalanced :
    unbalanced.length = (3 : UInt64).toNat ∧ unbalanced[(2 : UInt64).toNat]? = some [3] ∧
    rootFromAunts? 2 3 (leafHash [3]) (siblings 2 unbalanced) = some (root unbalanced) ∧
    (∀ start aunts, rootFromAunts? 2 3 start aunts = some (root unbalanced) →
      (start = leafHash [3] ∧ aunts = siblings 2 unbalanced) ∨
        HashAlgorithm.sha256.Collision (pathMessages 2 3 start aunts.reverse)
          (treeMessages unbalanced)) ∧
    ¬ (rootFromAunts? 2 3 (leafHash [3]) (siblings 0 unbalanced)).isSome = true := by
  obtain ⟨paths, shape, lengths⟩ := rootFromAunts?_iff_siblings
  obtain ⟨own, unique⟩ := paths unbalanced 2 3 [3] rfl rfl
  refine ⟨rfl, rfl, own, unique, fun accepted => ?_⟩
  obtain ⟨first, last⟩ := depth_unbalanced
  have long : (siblings 0 unbalanced).length = 2 := (lengths 0 unbalanced (by decide)).trans first
  have fits : (siblings 0 unbalanced).length = 1 := ((shape 2 3 _ _).1 accepted).2.trans last
  omega

end LightClient.HeaderTree
