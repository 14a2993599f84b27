import LightClient.Hash

/-!
# Collisions of a digest

No digest is injective. So what a digest commits to is determined unless two different byte strings
with one digest are at hand, and statements on it name the byte strings among which they are found.
-/
namespace LightClient

namespace Hash

theorem eq_of_bytes {a b : Hash} (same : a.bytes = b.bytes) : a = b := by
  cases a
  cases b
  simp_all

/-- Two hashes one after the other are told apart by their length. -/
theorem pair_injective {a b c d : Hash} (same : a.bytes ++ b.bytes = c.bytes ++ d.bytes) :
    a = c ∧ b = d := by
  obtain ⟨first, second⟩ := List.append_inj same (a.length_bytes.trans c.length_bytes.symm)
  exact ⟨eq_of_bytes first, eq_of_bytes second⟩

end Hash

namespace HashAlgorithm

/-- Two different byte strings have one digest. -/
def Confuses (algorithm : HashAlgorithm) (a b : Bytes) : Prop :=
  a ≠ b ∧ algorithm.digest a = algorithm.digest b

/-- The digest confuses a byte string of one list with one of another. -/
def Collision (algorithm : HashAlgorithm) (xs ys : List Bytes) : Prop :=
  ∃ a ∈ xs, ∃ b ∈ ys, algorithm.Confuses a b

variable {algorithm : HashAlgorithm} {xs ys xs' ys' : List Bytes}

theorem Collision.mono (h : algorithm.Collision xs ys) (left : xs ⊆ xs') (right : ys ⊆ ys') :
    algorithm.Collision xs' ys' := by
  obtain ⟨a, ha, b, hb, confused⟩ := h
  exact ⟨a, left ha, b, right hb, confused⟩

/-- Byte strings with one digest are equal or collide. -/
theorem eq_or_collision {a b : Bytes} (ha : a ∈ xs) (hb : b ∈ ys)
    (same : algorithm.digest a = algorithm.digest b) : a = b ∨ algorithm.Collision xs ys := by
  by_cases equal : a = b
  · exact .inl equal
  · exact .inr ⟨a, ha, b, hb, equal, same⟩

end HashAlgorithm

end LightClient
