import LightClient.HeaderTree
import LightClient.Proofs.Collision
import LightClient.Proofs.Quorum
import LightClient.Proofs.Sample

/-!
# What a block hash commits

The shape of a path is fixed by the place of its leaf and the number of leaves. So two paths to one
root from the same place can be compared from the root inward, and likewise a path with the tree
that has the root: either they go through the same hashes down to the leaf, or two of the messages
that were hashed on the way collide. Since a block has to prove the field of the application hash,
its block hash determines the application hash.
-/
namespace LightClient.HeaderTree

/-- What the hash of a leaf is taken of. -/
def leafMessage (leaf : Bytes) : Bytes := 0x00 :: leaf

/-- What the hash of an inner node is taken of. -/
def innerMessage (left right : Hash) : Bytes := 0x01 :: left.bytes ++ right.bytes

/-- What the hash of a tree is taken of if `child` is the hash of the half with the leaf at `index`
and `sibling` that of the other half. -/
def nodeMessage (index total : Nat) (child sibling : Hash) : Bytes :=
  if index < splitPoint total then innerMessage child sibling else innerMessage sibling child

/-- The place of a leaf in its half of the tree, and the number of leaves of this half. -/
def placeBelow (index total : Nat) : Nat × Nat :=
  if index < splitPoint total then (index, splitPoint total)
  else (index - splitPoint total, total - splitPoint total)

/-- The messages that are hashed on the way from a leaf to the root, by siblings listed from the
root inward. -/
def pathMessages (index total : Nat) (leaf : Hash) : List Hash → List Bytes
  | [] => []
  | aunt :: rest =>
    let place := placeBelow index total
    (rootFromOutermost? place.1 place.2 leaf rest).toList.map (nodeMessage index total · aunt)
      ++ pathMessages place.1 place.2 leaf rest

/-- The messages that are hashed for the root over the given leaves. -/
def treeMessages : List Bytes → List Bytes
  | [] => [[]]
  | [leaf] => [leafMessage leaf]
  | first :: second :: rest =>
    let leaves := first :: second :: rest
    let left := leaves.take (splitPoint leaves.length)
    let right := leaves.drop (splitPoint leaves.length)
    innerMessage (root left) (root right) :: (treeMessages left ++ treeMessages right)
termination_by leaves => leaves.length
decreasing_by
  · have := splitPoint_lt (show 2 ≤ rest.length + 1 + 1 by omega)
    simp only [List.length_take, List.length_cons]
    omega
  · have := splitPoint_pos (show 2 ≤ rest.length + 1 + 1 by omega)
    simp only [List.length_drop, List.length_cons]
    omega

/-- The messages that are hashed to check the application hash of a block. -/
def headerMessages (block : Block) : List Bytes :=
  let path := block.appHashPath
  let leaf := encodeField block.appHash.bytes
  leafMessage leaf
    :: pathMessages path.index.toNat path.total.toNat (leafHash leaf) path.aunts.reverse

theorem innerMessage_injective {left right left' right' : Hash}
    (same : innerMessage left right = innerMessage left' right') : left = left' ∧ right = right' :=
  Hash.pair_injective (List.cons.inj same).2

theorem nodeMessage_injective {index total : Nat} {child sibling child' sibling' : Hash}
    (same : nodeMessage index total child sibling = nodeMessage index total child' sibling') :
    child = child' ∧ sibling = sibling' := by
  unfold nodeMessage at same
  split at same
  · exact innerMessage_injective same
  · exact (innerMessage_injective same).symm

/-- Without siblings only the leaf of a tree of one leaf is a root. -/
theorem rootFromOutermost?_nil {index total : Nat} {leaf root : Hash} :
    rootFromOutermost? index total leaf [] = some root ↔ index = 0 ∧ total = 1 ∧ leaf = root := by
  rw [rootFromOutermost?]
  split
  · rename_i alone
    rw [Option.some.injEq]
    constructor
    · exact fun same => ⟨by omega, alone.2, same⟩
    · exact fun h => h.2.2
  · rename_i other
    constructor
    · intro h
      cases h
    · exact fun h => absurd ⟨by omega, h.2.1⟩ other

/-- The outermost sibling is the half of the tree without the leaf. -/
theorem rootFromOutermost?_cons {index total : Nat} {leaf aunt root : Hash} {rest : List Hash} :
    rootFromOutermost? index total leaf (aunt :: rest) = some root ↔
      index < total ∧ total ≠ 1 ∧ ∃ child,
        rootFromOutermost? (placeBelow index total).1 (placeBelow index total).2 leaf rest =
          some child ∧
        HashAlgorithm.sha256.digest (nodeMessage index total child aunt) = root := by
  rw [rootFromOutermost?]
  unfold placeBelow nodeMessage
  by_cases inside : index < total ∧ total ≠ 1
  · rw [if_pos inside]
    by_cases left : index < splitPoint total
    · simp [left, inside, innerHash, innerMessage]
    · simp [left, inside, innerHash, innerMessage]
  · rw [if_neg inside]
    simp only [reduceCtorEq, false_iff]
    exact fun h => inside ⟨h.1, h.2.1⟩

theorem pathMessages_cons {index total : Nat} {leaf aunt child : Hash} {rest : List Hash}
    (below : rootFromOutermost? (placeBelow index total).1 (placeBelow index total).2 leaf rest
      = some child) :
    pathMessages index total leaf (aunt :: rest) = nodeMessage index total child aunt
      :: pathMessages (placeBelow index total).1 (placeBelow index total).2 leaf rest := by
  simp [pathMessages, below]

/-- Two paths from one place to one root are the same, or messages on them collide. -/
theorem paths_agree {index total : Nat} {leaf leaf' root : Hash} {aunts aunts' : List Hash}
    (path : rootFromOutermost? index total leaf aunts = some root)
    (path' : rootFromOutermost? index total leaf' aunts' = some root) :
    (leaf = leaf' ∧ aunts = aunts') ∨
      HashAlgorithm.sha256.Collision (pathMessages index total leaf aunts)
        (pathMessages index total leaf' aunts') := by
  induction aunts generalizing index total aunts' root with
  | nil =>
    obtain ⟨-, alone, rfl⟩ := rootFromOutermost?_nil.1 path
    cases aunts' with
    | nil => exact .inl ⟨(rootFromOutermost?_nil.1 path').2.2.symm, rfl⟩
    | cons aunt' rest' => exact absurd alone (rootFromOutermost?_cons.1 path').2.1
  | cons aunt rest ih =>
    obtain ⟨-, several, child, below, hashed⟩ := rootFromOutermost?_cons.1 path
    cases aunts' with
    | nil => exact absurd (rootFromOutermost?_nil.1 path').2.1 several
    | cons aunt' rest' =>
      obtain ⟨-, -, child', below', hashed'⟩ := rootFromOutermost?_cons.1 path'
      rw [pathMessages_cons below, pathMessages_cons below']
      rcases HashAlgorithm.eq_or_collision List.mem_cons_self List.mem_cons_self
        (hashed.trans hashed'.symm) with same | collision
      · obtain ⟨rfl, rfl⟩ := nodeMessage_injective same
        rcases ih below below' with ⟨rfl, rfl⟩ | collision
        · exact .inl ⟨rfl, rfl⟩
        · exact .inr (collision.mono (List.subset_cons_self _ _) (List.subset_cons_self _ _))
      · exact .inr collision

/-- The leaves of a tree in the half with a given leaf, and those of the other half. -/
def halves (index : Nat) (leaves : List Bytes) : List Bytes × List Bytes :=
  let split := splitPoint leaves.length
  if index < split then (leaves.take split, leaves.drop split)
    else (leaves.drop split, leaves.take split)

/-- The half with the leaf has the size of the place below, and the leaf in this place. -/
theorem halves_place (index : Nat) {leaves : List Bytes} (several : 2 ≤ leaves.length) :
    (halves index leaves).1.length = (placeBelow index leaves.length).2 ∧
      (halves index leaves).1[(placeBelow index leaves.length).1]? = leaves[index]? := by
  have bound := splitPoint_lt several
  unfold halves placeBelow
  by_cases left : index < splitPoint leaves.length
  · simp only [left, ↓reduceIte]
    refine ⟨?_, List.getElem?_take_of_lt left⟩
    rw [List.length_take]
    omega
  · simp only [left, ↓reduceIte]
    refine ⟨List.length_drop, ?_⟩
    rw [List.getElem?_drop]
    congr 1
    omega

/-- A tree of several leaves is hashed from the half with a given leaf and the other half. -/
theorem root_eq_halves (index : Nat) {leaves : List Bytes} (several : 2 ≤ leaves.length) :
    root leaves = HashAlgorithm.sha256.digest (nodeMessage index leaves.length
        (root (halves index leaves).1) (root (halves index leaves).2)) ∧
      nodeMessage index leaves.length (root (halves index leaves).1) (root (halves index leaves).2)
        ∈ treeMessages leaves ∧
      treeMessages (halves index leaves).1 ⊆ treeMessages leaves := by
  match leaves, several with
  | first :: second :: rest, several =>
    rw [root, treeMessages]
    unfold halves nodeMessage
    by_cases left : index < splitPoint (first :: second :: rest).length
    · simp only [left, ↓reduceIte]
      refine ⟨rfl, List.mem_cons_self, ?_⟩
      exact List.subset_cons_of_subset _ (List.subset_append_left _ _)
    · simp only [left, ↓reduceIte]
      refine ⟨rfl, List.mem_cons_self, ?_⟩
      exact List.subset_cons_of_subset _ (List.subset_append_right _ _)

theorem leafMessage_mem {leaves : List Bytes} {leaf : Bytes} (member : leaf ∈ leaves) :
    leafMessage leaf ∈ treeMessages leaves := by
  fun_induction treeMessages leaves with
  | case1 => cases member
  | case2 only =>
    obtain rfl := List.mem_singleton.1 member
    exact List.mem_singleton_self _
  | case3 first second rest leaves left right ihLeft ihRight =>
    have whole : left ++ right = first :: second :: rest := List.take_append_drop _ _
    rw [← whole] at member
    apply List.mem_cons_of_mem
    apply List.mem_append.2
    rcases List.mem_append.1 member with member | member
    · exact .inl (ihLeft member)
    · exact .inr (ihRight member)

/-- A path to the root of a tree starts at the leaf in its place, or a message on it collides with
one of the tree. -/
theorem path_from_leaf {index : Nat} {leaf : Hash} {leaves : List Bytes} {aunts : List Hash}
    (path : rootFromOutermost? index leaves.length leaf aunts = some (root leaves)) :
    (∃ bytes, leaves[index]? = some bytes ∧ leaf = leafHash bytes) ∨
      HashAlgorithm.sha256.Collision (pathMessages index leaves.length leaf aunts)
        (treeMessages leaves) := by
  induction aunts generalizing index leaves with
  | nil =>
    obtain ⟨rfl, alone, same⟩ := rootFromOutermost?_nil.1 path
    obtain ⟨only, rfl⟩ := List.length_eq_one_iff.1 alone
    rw [root] at same
    exact .inl ⟨only, rfl, same⟩
  | cons aunt rest ih =>
    obtain ⟨inside, several, child, below, hashed⟩ := rootFromOutermost?_cons.1 path
    have several : 2 ≤ leaves.length := by omega
    obtain ⟨length, same⟩ := halves_place index several
    obtain ⟨rooted, message, messages⟩ := root_eq_halves index several
    rw [pathMessages_cons below]
    rcases HashAlgorithm.eq_or_collision List.mem_cons_self message (hashed.trans rooted)
      with equal | collision
    · obtain ⟨rfl, rfl⟩ := nodeMessage_injective equal
      rw [← length] at below
      rcases ih below with found | collision
      · rw [same] at found
        exact .inl found
      · rw [length] at collision
        exact .inr (collision.mono (List.subset_cons_self _ _) messages)
    · exact .inr collision

/-- A hash as a field is told by its bytes. -/
theorem encodeField_injective {a b : Hash} (same : encodeField a.bytes = encodeField b.bytes) :
    a = b := by
  have filled (h : Hash) : h.bytes ≠ [] := fun empty => by
    have length := h.length_bytes
    rw [empty] at length
    cases length
  unfold encodeField at same
  rw [if_neg (filled a), if_neg (filled b), Wire.field, Wire.field, a.length_bytes,
    b.length_bytes] at same
  exact Hash.eq_of_bytes (List.append_cancel_left same)

/-- An accepted block has a path from the place of the application hash to its block hash. -/
theorem path_of_checkAppHash {block : Block} (passed : checkAppHash block = .ok ()) :
    block.appHashPath.total = 14 ∧ block.appHashPath.index = 10 ∧
      rootFromOutermost? 10 14 (leafHash (encodeField block.appHash.bytes))
        block.appHashPath.aunts.reverse = some block.blockHash := by
  have committed := checkAppHash_eq_ok.1 passed
  unfold committedRoot? at committed
  dsimp only at committed
  split at committed
  · rename_i place
    obtain ⟨total, index⟩ := place
    unfold rootFromAunts? at committed
    rw [total, index] at committed
    exact ⟨total, index, committed⟩
  · cases committed

theorem headerMessages_of_place {block : Block} (total : block.appHashPath.total = 14)
    (index : block.appHashPath.index = 10) :
    headerMessages block = leafMessage (encodeField block.appHash.bytes)
      :: pathMessages 10 14 (leafHash (encodeField block.appHash.bytes))
        block.appHashPath.aunts.reverse := by
  unfold headerMessages
  dsimp only
  rw [total, index]
  rfl

/-- Two accepted blocks with one block hash prove the same field in the same way. -/
theorem appHash_unique {block block' : Block} (same : block.blockHash = block'.blockHash)
    (passed : checkAppHash block = .ok ()) (passed' : checkAppHash block' = .ok ()) :
    (block.appHash = block'.appHash ∧ block.appHashPath = block'.appHashPath) ∨
      HashAlgorithm.sha256.Collision (headerMessages block) (headerMessages block') := by
  obtain ⟨total, index, path⟩ := path_of_checkAppHash passed
  obtain ⟨total', index', path'⟩ := path_of_checkAppHash passed'
  rw [headerMessages_of_place total index, headerMessages_of_place total' index']
  rw [← same] at path'
  rcases paths_agree path path' with ⟨leaves, aunts⟩ | collision
  · rcases HashAlgorithm.eq_or_collision List.mem_cons_self List.mem_cons_self leaves
      with fields | collision
    · have appHash := encodeField_injective (List.cons.inj fields).2
      have paths : block.appHashPath = block'.appHashPath := by
        cases own : block.appHashPath
        cases other : block'.appHashPath
        simp_all
      exact .inl ⟨appHash, paths⟩
    · exact .inr collision
  · exact .inr (collision.mono (List.subset_cons_self _ _) (List.subset_cons_self _ _))

/-- The field that an accepted block proves is the one in the header that its block hash is the root
of. -/
theorem appHash_in_header {block : Block} {fields : List Bytes} (count : fields.length = 14)
    (rooted : block.blockHash = root fields) (passed : checkAppHash block = .ok ()) :
    fields[10]? = some (encodeField block.appHash.bytes) ∨
      HashAlgorithm.sha256.Collision (headerMessages block) (treeMessages fields) := by
  obtain ⟨total, index, path⟩ := path_of_checkAppHash passed
  rw [headerMessages_of_place total index]
  rw [rooted, ← count] at path
  rw [← count]
  rcases path_from_leaf path with ⟨field, found, leaves⟩ | collision
  · rcases HashAlgorithm.eq_or_collision List.mem_cons_self
      (leafMessage_mem (List.mem_of_getElem? found)) leaves with fields | collision
    · exact .inl (found.trans (congrArg some (List.cons.inj fields).2.symm))
    · exact .inr collision
  · exact .inr (collision.mono (List.subset_cons_self _ _) (List.Subset.refl _))

/-- A block hash determines the application hash of the blocks that are accepted with it, and it is
the field in its place of any header with this hash; or else messages that are hashed for them
collide. -/
theorem blockHash_determines_appHash :
    (∀ block block' : Block, block.blockHash = block'.blockHash → checkAppHash block = .ok () →
      checkAppHash block' = .ok () →
        (block.appHash = block'.appHash ∧ block.appHashPath = block'.appHashPath) ∨
          HashAlgorithm.sha256.Collision (headerMessages block) (headerMessages block')) ∧
    (∀ (block : Block) (fields : List Bytes), fields.length = 14 → block.blockHash = root fields →
      checkAppHash block = .ok () →
        fields[10]? = some (encodeField block.appHash.bytes) ∨
          HashAlgorithm.sha256.Collision (headerMessages block) (treeMessages fields)) :=
  ⟨fun _ _ same passed passed' => appHash_unique same passed passed',
    fun _ _ count rooted passed => appHash_in_header count rooted passed⟩

namespace Sample
open Session.Sample

/-- A header of which all fields but the application hash are empty. -/
def fields : List Bytes := (List.replicate 14 []).set 10 (encodeField Session.Sample.root.bytes)

/-- A block with this header. -/
def headed : Block :=
  let pair := innerHash (leafHash []) (leafHash [])
  { block with
    blockHash := HeaderTree.root fields
    appHashPath := ⟨14, 10, [leafHash [], pair, pair, HeaderTree.root (fields.take 8)]⟩ }

/-- A report of the same block under another height. -/
def displaced : Block := { headed with height := 7 }

end Sample

open Sample in
/-- A header that is known, and two blocks that are reported for it. -/
theorem headed_determines_appHash :
    (headed.blockHash = displaced.blockHash ∧ checkAppHash headed = .ok () ∧
      checkAppHash displaced = .ok () ∧
        ((headed.appHash = displaced.appHash ∧ headed.appHashPath = displaced.appHashPath) ∨
          HashAlgorithm.sha256.Collision (headerMessages headed) (headerMessages displaced))) ∧
    (fields.length = 14 ∧ headed.blockHash = root fields ∧
      (fields[10]? = some (encodeField headed.appHash.bytes) ∨
        HashAlgorithm.sha256.Collision (headerMessages headed) (treeMessages fields))) := by
  have splits : splitPoint 14 = 8 ∧ splitPoint 8 = 4 ∧ splitPoint 6 = 4 ∧ splitPoint 4 = 2 ∧
      splitPoint 2 = 1 := by decide
  -- The tree and the path have the same nodes, so no digest is evaluated.
  have committed : committedRoot? headed = some headed.blockHash := by
    simp [committedRoot?, rootFromAunts?, rootFromOutermost?, root, headed, fields, fieldCount,
      appHashField, Session.Sample.block, splits]
  have passed : checkAppHash headed = .ok () := checkAppHash_eq_ok.2 committed
  have passed' : checkAppHash displaced = .ok () := checkAppHash_eq_ok.2 committed
  exact ⟨⟨rfl, passed, passed', blockHash_determines_appHash.1 headed displaced rfl passed passed'⟩,
    rfl, rfl, blockHash_determines_appHash.2 headed fields rfl rfl passed⟩

end LightClient.HeaderTree
