import LightClient.Proofs.HeaderPaths
import Mathlib.Algebra.Group.Nat.Defs

/-!
# The header tree in words

Numbers of leaves and places come from backends as words of 64 bits, and anything that fits is
possible. The arithmetic on them never leaves its range: a tree of several leaves is split at the
only power of two that is smaller than it and at least half of it. So each half fits the next
smaller power of two, whether its size is a power of two or not, and the walk from the root to a
leaf meets at most 64 inner nodes.
-/
namespace LightClient.HeaderTree

/-- What can go wrong in arithmetic with words. -/
inductive Fault where
  /-- A tree of less than two leaves was to be split. -/
  | belowTwo
  /-- A difference was below zero. -/
  | underflow
  /-- A word was shifted by its width or more. -/
  | wideShift
  deriving DecidableEq, Repr

/-- The difference of two words. -/
def minus (a b : UInt64) : Except Fault UInt64 := if b ≤ a then .ok (a - b) else .error .underflow

/-- A power of two as a shifted one. -/
def shiftedOne (places : UInt64) : Except Fault UInt64 :=
  if places < 64 then .ok (1 <<< places) else .error .wideShift

/-- The number of bits above the highest one that is set. -/
def leadingZeros (n : UInt64) : UInt64 := UInt64.ofNat n.toBitVec.clz.toNat

/-- The split point by leading zeros: the highest power of two in `total`, or half of it. -/
def splitInWords (total : UInt64) : Except Fault UInt64 :=
  if total < 2 then .error .belowTwo
  else do
    let places ← minus 63 (leadingZeros total)
    let power ← shiftedOne places
    return if power = total then power >>> 1 else power

/-- What a walk to a leaf returns, with the sizes of the trees in the walks below it, the largest
first. -/
structure Walk where
  root : Option Hash
  sizes : List UInt64

/-- The walk of `rootFromOutermost?` in words. -/
def walkInWords (index total : UInt64) (leaf : Hash) (aunts : List Hash) : Except Fault Walk :=
  if total ≤ index then .ok ⟨none, []⟩
  else if total = 1 then .ok ⟨if aunts = [] then some leaf else none, []⟩
  else
    match aunts with
    | [] => .ok ⟨none, []⟩
    | aunt :: rest => do
      let split ← splitInWords total
      if index < split then
        let left ← walkInWords index split leaf rest
        return ⟨left.root.map fun left => innerHash left aunt, split :: left.sizes⟩
      else
        let place ← minus index split
        let size ← minus total split
        let right ← walkInWords place size leaf rest
        return ⟨right.root.map fun right => innerHash aunt right, size :: right.sizes⟩

/-! ## The split point -/

/-- A tree is split at a power of two that is smaller than it and at least half of it. -/
theorem splitPoint_spec {total : Nat} (several : 2 ≤ total) :
    ∃ k, splitPoint total = 2 ^ k ∧ 2 ^ k < total ∧ total ≤ 2 * 2 ^ k := by
  have low : 2 ^ total.log2 ≤ total := Nat.log2_self_le (by omega)
  have high : total < 2 ^ (total.log2 + 1) := Nat.lt_log2_self
  rw [Nat.pow_succ'] at high
  rw [splitPoint, Nat.one_shiftLeft]
  by_cases whole : 2 ^ total.log2 = total
  · obtain ⟨k, half⟩ : ∃ k, total.log2 = k + 1 := by
      cases place : total.log2 with
      | zero =>
        rw [place, Nat.pow_zero] at whole
        omega
      | succ k => exact ⟨k, rfl⟩
    rw [half, Nat.pow_succ'] at whole
    refine ⟨k, ?_, by omega, by omega⟩
    rw [if_pos (by rw [half, Nat.pow_succ', whole]), half, Nat.pow_succ']
    omega
  · exact ⟨total.log2, if_neg whole, by omega, by omega⟩

/-- No other power of two is smaller than a tree and at least half of it. -/
theorem eq_splitPoint_iff {total p : Nat} (several : 2 ≤ total) :
    p = splitPoint total ↔ (∃ k, p = 2 ^ k) ∧ p < total ∧ total ≤ 2 * p := by
  obtain ⟨k, split, below, half⟩ := splitPoint_spec several
  rw [split]
  constructor
  · rintro rfl
    exact ⟨⟨k, rfl⟩, below, half⟩
  · rintro ⟨⟨l, rfl⟩, below', half'⟩
    rw [← Nat.pow_succ'] at half half'
    have up : l < k + 1 := (Nat.pow_lt_pow_iff_right (by decide)).1 (Nat.lt_of_lt_of_le below' half)
    have down : k < l + 1 :=
      (Nat.pow_lt_pow_iff_right (by decide)).1 (Nat.lt_of_lt_of_le below half')
    rw [show l = k by omega]

theorem log2_eq_of_leadingZeros {total : UInt64} (several : 2 ≤ total.toNat) :
    (leadingZeros total).toNat ≤ 63 ∧ total.toNat.log2 = 63 - (leadingZeros total).toNat := by
  have count : (leadingZeros total).toNat = total.toBitVec.clz.toNat :=
    UInt64.toNat_ofNat_of_lt total.toBitVec.clz.isLt
  have nonzero : total.toBitVec ≠ 0#64 := fun zero => by
    have : total.toNat = 0 := congrArg BitVec.toNat zero
    omega
  have low := BitVec.two_pow_sub_clz_le_toNat_of_ne_zero (by decide) nonzero
  have high : total.toBitVec.toNat < _ := BitVec.toNat_lt_two_pow_sub_clz
  have few : total.toBitVec.clz.toNat ≤ 63 := by
    have := BitVec.lt_def.1 (BitVec.clz_lt_iff_ne_zero.2 nonzero)
    exact Nat.le_of_lt_succ this
  rw [count]
  refine ⟨few, (Nat.log2_eq_iff (by omega)).2 ⟨low, ?_⟩⟩
  rwa [show 63 - total.toBitVec.clz.toNat + 1 = 64 - total.toBitVec.clz.toNat by omega]

theorem minus_eq_ok {a b : UInt64} (h : b.toNat ≤ a.toNat) :
    minus a b = .ok (a - b) ∧ (a - b).toNat = a.toNat - b.toNat :=
  have le : b ≤ a := UInt64.le_iff_toNat_le.2 h
  ⟨if_pos le, UInt64.toNat_sub_of_le a b le⟩

theorem shiftedOne_eq_ok {places : UInt64} (h : places.toNat < 64) :
    shiftedOne places = .ok (1 <<< places) ∧ (1 <<< places).toNat = 2 ^ places.toNat := by
  refine ⟨if_pos (UInt64.lt_iff_toNat_lt.2 h), ?_⟩
  have small : 2 ^ places.toNat < 2 ^ 64 := Nat.pow_lt_pow_right (by decide) h
  rw [UInt64.toNat_shiftLeft, Nat.mod_eq_of_lt h, show (1 : UInt64).toNat = 1 from rfl,
    Nat.one_shiftLeft]
  exact Nat.mod_eq_of_lt small

/-- For two leaves or more the split point is computed without a fault. -/
theorem splitInWords_eq_ok {total : UInt64} (several : 2 ≤ total.toNat) :
    ∃ split, splitInWords total = .ok split ∧ split.toNat = splitPoint total.toNat := by
  obtain ⟨few, place⟩ := log2_eq_of_leadingZeros several
  have enough : ¬ total < 2 := by
    rw [UInt64.lt_iff_toNat_lt]
    exact Nat.not_lt.2 several
  obtain ⟨difference, places⟩ := minus_eq_ok (a := 63) few
  have places : (63 - leadingZeros total).toNat = total.toNat.log2 := places.trans place.symm
  obtain ⟨shifted, power⟩ : shiftedOne (63 - leadingZeros total) = _ ∧ _ :=
    shiftedOne_eq_ok (by omega)
  generalize 63 - leadingZeros total = amount at *
  rw [places] at power
  refine ⟨if 1 <<< amount = total then (1 <<< amount) >>> 1 else 1 <<< amount, ?_, ?_⟩
  · rw [splitInWords, if_neg enough, difference]
    dsimp only [bind, Except.bind]
    rw [shifted]
    rfl
  · rw [splitPoint, Nat.one_shiftLeft, ← power]
    by_cases whole : 1 <<< amount = total
    · rw [if_pos whole, if_pos (congrArg UInt64.toNat whole), UInt64.toNat_shiftRight]
      exact Nat.shiftRight_eq_div_pow _ 1
    · rw [if_neg whole, if_neg fun same => whole (UInt64.toNat_inj.1 same)]

/-! ## The walk -/

/-- A leaf lies no deeper than the logarithm of the size, rounded up. -/
theorem depth_le {total k : Nat} (index : Nat) (fits : total ≤ 2 ^ k) : depth index total ≤ k := by
  induction k generalizing index total with
  | zero =>
    rw [Nat.pow_zero] at fits
    have few : ¬ 2 ≤ total := by omega
    have flat : depth index total = 0 := by rw [depth, if_neg few]
    exact Nat.le_of_eq flat
  | succ k ih =>
    rw [depth]
    split
    · rename_i several
      obtain ⟨l, split, below, half⟩ := splitPoint_spec several
      -- The left half is a power of two below the size, and the right one is not larger.
      have shorter : l < k + 1 :=
        (Nat.pow_lt_pow_iff_right (by decide)).1 (Nat.lt_of_lt_of_le below fits)
      have left : 2 ^ l ≤ 2 ^ k := Nat.pow_le_pow_right (by decide) (Nat.le_of_lt_succ shorter)
      refine Nat.succ_le_succ (ih _ ?_)
      unfold placeBelow
      split <;> dsimp only <;> omega
    · exact Nat.zero_le _

/-- What is left behind the left half of a tree of several leaves is computed without a fault. -/
theorem rightInWords {index total split : UInt64} (several : 2 ≤ total.toNat)
    (same : split.toNat = splitPoint total.toNat) (right : ¬ index < split) :
    minus index split = .ok (index - split) ∧ minus total split = .ok (total - split) ∧
      placeBelow index.toNat total.toNat = ((index - split).toNat, (total - split).toNat) ∧
      total - split < total := by
  have pos := splitPoint_pos several
  have below := splitPoint_lt several
  have beyond : split.toNat ≤ index.toNat := UInt64.le_iff_toNat_le.1 (UInt64.not_lt.1 right)
  obtain ⟨placed, place⟩ := minus_eq_ok beyond
  obtain ⟨sized, size⟩ := minus_eq_ok (a := total) (b := split) (by omega)
  refine ⟨placed, sized, ?_, ?_⟩
  · rw [placeBelow, ← same, if_neg (Nat.not_lt.2 beyond), place, size]
  · rw [UInt64.lt_iff_toNat_lt, size]
    omega

/-- Outside of the tree, at a single leaf and without a sibling left there is no walk below. -/
theorem walkInWords_ended {index total : UInt64} (leaf : Hash) {aunts : List Hash}
    (ended : ¬ (index.toNat < total.toNat ∧ total.toNat ≠ 1) ∨ aunts = []) :
    walkInWords index total leaf aunts
      = .ok ⟨rootFromOutermost? index.toNat total.toNat leaf aunts, []⟩ := by
  have outside : total ≤ index ↔ ¬ index.toNat < total.toNat := by
    rw [UInt64.le_iff_toNat_le, Nat.not_lt]
  have single : total = 1 ↔ total.toNat = 1 := UInt64.toNat_inj.symm
  unfold walkInWords
  simp only [outside, single]
  by_cases inside : index.toNat < total.toNat
  · rw [if_neg fun outside => outside inside]
    by_cases alone : total.toNat = 1
    · rw [if_pos alone]
      cases aunts with
      | nil => rw [rootFromOutermost?, if_pos rfl, if_pos ⟨inside, alone⟩]
      | cons aunt rest =>
        rw [rootFromOutermost?, if_neg (List.cons_ne_nil aunt rest), if_neg fun h => h.2 alone]
    · obtain rfl := ended.resolve_left fun h => h ⟨inside, alone⟩
      rw [if_neg alone, rootFromOutermost?, if_neg fun h => alone h.2]
  · rw [if_pos inside]
    cases aunts with
    | nil => rw [rootFromOutermost?, if_neg fun h => inside h.1]
    | cons aunt rest => rw [rootFromOutermost?, if_neg fun h => inside h.1]

/-- A walk in words ends without a fault and with the same result, each walk below it is in a
smaller tree, and there are no more of them than the leaf lies deep. -/
theorem walkInWords_eq_ok (index total : UInt64) (leaf : Hash) (aunts : List Hash) :
    ∃ sizes, walkInWords index total leaf aunts
        = .ok ⟨rootFromOutermost? index.toNat total.toNat leaf aunts, sizes⟩ ∧
      (total :: sizes).Pairwise (· > ·) ∧ sizes.length ≤ depth index.toNat total.toNat := by
  induction aunts generalizing index total with
  | nil =>
    exact ⟨[], walkInWords_ended leaf (.inr rfl), List.pairwise_singleton _ _, Nat.zero_le _⟩
  | cons aunt rest ih =>
    by_cases deeper : index.toNat < total.toNat ∧ total.toNat ≠ 1
    · obtain ⟨inside, several⟩ := deeper
      have several' : 2 ≤ total.toNat := by omega
      obtain ⟨split, found, same⟩ := splitInWords_eq_ok several'
      have within : ¬ total ≤ index := fun outside =>
        absurd (UInt64.le_iff_toNat_le.1 outside) (Nat.not_le.2 inside)
      have more : ¬ total = 1 := fun alone => several (congrArg UInt64.toNat alone)
      -- The walk below starts from a smaller tree, so that all trees after it are smaller as well.
      have descend {size : UInt64} {sizes : List UInt64} (smaller : size < total)
          (chain : (size :: sizes).Pairwise (· > ·)) :
          (total :: size :: sizes).Pairwise (· > ·) := by
        refine List.pairwise_cons.2 ⟨List.forall_mem_cons.2 ⟨smaller, fun s member => ?_⟩, chain⟩
        exact UInt64.lt_trans (List.rel_of_pairwise_cons chain member) smaller
      rw [walkInWords, if_neg within, if_neg more, found, rootFromOutermost?,
        if_pos ⟨inside, several⟩, depth, if_pos several']
      dsimp only [bind, Except.bind]
      rw [← same]
      by_cases left : index < split
      · have left' := UInt64.lt_iff_toNat_lt.1 left
        have place : placeBelow index.toNat total.toNat = (index.toNat, split.toNat) := by
          rw [placeBelow, ← same, if_pos left']
        have smaller : split < total := by
          rw [UInt64.lt_iff_toNat_lt, same]
          exact splitPoint_lt several'
        obtain ⟨sizes, below, chain, short⟩ := ih index split
        rw [if_pos left, if_pos left', below, place]
        exact ⟨split :: sizes, rfl, descend smaller chain, Nat.succ_le_succ short⟩
      · have right := mt UInt64.lt_iff_toNat_lt.2 left
        obtain ⟨placed, sized, place, smaller⟩ := rightInWords several' same left
        obtain ⟨sizes, below, chain, short⟩ := ih (index - split) (total - split)
        obtain ⟨placeNat, sizeNat⟩ := Prod.mk.inj ((if_neg (same ▸ right)).symm.trans place)
        rw [if_neg left, if_neg right, placed, place]
        dsimp only
        rw [sized]
        dsimp only
        rw [below, same, placeNat, sizeNat]
        exact ⟨(total - split) :: sizes, rfl, descend smaller chain, Nat.succ_le_succ short⟩
    · exact ⟨[], walkInWords_ended leaf (.inl deeper), List.pairwise_singleton _ _, Nat.zero_le _⟩

/-! ## All sizes of a word -/

/-- For every size from two on, the split point is computed in words without a fault, as the only
power of two that is smaller than the size and at least half of it. So whatever place, size and
siblings are given, the walk from the root to the leaf ends without a fault: nothing less than two
is split, and no difference is below zero. It gives what the tree over unbounded numbers gives, each
walk below is in a smaller tree, and there are at most 64 of them. Likewise a list of leaves is cut
in two that are shorter, and none of its leaves lies deeper. -/
theorem tree_arithmetic_within_words :
    (∀ total : UInt64, 2 ≤ total → ∃ split, splitInWords total = .ok split ∧
      ∀ p : Nat, p = split.toNat ↔ (∃ k, p = 2 ^ k) ∧ p < total.toNat ∧ total.toNat ≤ 2 * p) ∧
    (∀ (index total : UInt64) (leaf : Hash) (aunts : List Hash), ∃ sizes,
      walkInWords index total leaf aunts.reverse =
        .ok ⟨rootFromAunts? index total leaf aunts, sizes⟩ ∧
        (total :: sizes).Pairwise (· > ·) ∧ sizes.length ≤ 64) ∧
    ∀ leaves : List Bytes, leaves.length < UInt64.size →
      (2 ≤ leaves.length → ∃ split, splitInWords (UInt64.ofNat leaves.length) = .ok split ∧
        root leaves = innerHash (root (leaves.take split.toNat)) (root (leaves.drop split.toNat)) ∧
        (leaves.take split.toNat).length = split.toNat ∧ split.toNat < leaves.length ∧
        (leaves.drop split.toNat).length < leaves.length) ∧
      ∀ index, depth index leaves.length ≤ 64 := by
  refine ⟨?_, ?_, ?_⟩
  · intro total several
    have several : 2 ≤ total.toNat := UInt64.le_iff_toNat_le.1 several
    obtain ⟨split, found, same⟩ := splitInWords_eq_ok several
    exact ⟨split, found, fun p => same ▸ eq_splitPoint_iff several⟩
  · intro index total leaf aunts
    obtain ⟨sizes, walked, chain, short⟩ := walkInWords_eq_ok index total leaf aunts.reverse
    exact ⟨sizes, walked, chain, Nat.le_trans short (depth_le _ (Nat.le_of_lt total.toNat_lt))⟩
  · intro leaves fits
    refine ⟨fun several => ?_, fun index => depth_le index (Nat.le_of_lt fits)⟩
    have count : (UInt64.ofNat leaves.length).toNat = leaves.length := UInt64.toNat_ofNat_of_lt fits
    have total : 2 ≤ (UInt64.ofNat leaves.length).toNat := by rwa [count]
    obtain ⟨split, found, same⟩ := splitInWords_eq_ok total
    have pos := splitPoint_pos several
    have below := splitPoint_lt several
    rw [count] at same
    refine ⟨split, found, ?_⟩
    rw [same, List.length_take, List.length_drop]
    refine ⟨?_, ?_, below, ?_⟩
    · match leaves, several with
      | first :: second :: rest, _ => rw [root]
    all_goals omega

namespace Sample

/-- The largest number of leaves that a path can tell of. -/
def largest : UInt64 := 18446744073709551615

end Sample

open Sample in
/-- The largest tree is split at the highest power of two, and the walk to its last leaf ends. A
tree of three leaves is cut behind the second one. -/
theorem tree_arithmetic_of_largest :
    (2 ≤ largest ∧ ∃ split, splitInWords largest = .ok split ∧ 2 ^ 63 = split.toNat) ∧
    (∃ sizes, walkInWords (largest - 1) largest .zero [].reverse
        = .ok ⟨rootFromAunts? (largest - 1) largest .zero [], sizes⟩ ∧
      (largest :: sizes).Pairwise (· > ·) ∧ sizes.length ≤ 64) ∧
    (unbalanced.length < UInt64.size ∧ 2 ≤ unbalanced.length ∧ ∃ split,
      splitInWords (UInt64.ofNat unbalanced.length) = .ok split ∧
        root unbalanced = innerHash (root (unbalanced.take split.toNat))
          (root (unbalanced.drop split.toNat))) := by
  obtain ⟨splits, walks, lists⟩ := tree_arithmetic_within_words
  obtain ⟨split, found, only⟩ := splits largest (by decide)
  obtain ⟨cut, rooted⟩ := (lists unbalanced (by decide)).1 (by decide)
  exact ⟨⟨by decide, split, found, (only _).2 ⟨⟨63, rfl⟩, by decide, by decide⟩⟩,
    walks (largest - 1) largest .zero [], by decide, by decide, cut, rooted.1, rooted.2.1⟩

end LightClient.HeaderTree
