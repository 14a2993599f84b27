/-!
# Values under text keys

A `Keyed` collection holds one value for each of finitely many keys, in ascending order of the keys
by code points. So two collections with the same bindings are equal.
-/
namespace LightClient

/-- Bindings of distinct keys in ascending order. -/
structure Keyed (α : Type) where
  toList : List (String × α)
  sorted : toList.Pairwise (·.1 < ·.1)

namespace Keyed
variable {α : Type}

def empty : Keyed α := ⟨[], .nil⟩

/-- Puts a binding at its place in an ascending list; an older one of the same key goes. -/
def insertInto (key : String) (value : α) : List (String × α) → List (String × α)
  | [] => [(key, value)]
  | (k, v) :: rest =>
    if key < k then (key, value) :: (k, v) :: rest
    else if k < key then (k, v) :: insertInto key value rest
    else (key, value) :: rest

theorem mem_insertInto {key : String} {value : α} {l : List (String × α)} {b : String × α}
    (h : b ∈ insertInto key value l) : b = (key, value) ∨ b ∈ l := by
  induction l with
  | nil => simpa [insertInto] using h
  | cons c rest ih =>
    obtain ⟨k, v⟩ := c
    rw [insertInto] at h
    split at h
    · simpa using h
    · split at h
      · rcases List.mem_cons.1 h with h | h
        · exact .inr (by simp [h])
        · exact (ih h).imp_right fun h => List.mem_cons_of_mem _ h
      · rcases List.mem_cons.1 h with h | h
        · exact .inl h
        · exact .inr (List.mem_cons_of_mem _ h)

theorem sorted_insertInto (key : String) (value : α) {l : List (String × α)}
    (h : l.Pairwise (·.1 < ·.1)) : (insertInto key value l).Pairwise (·.1 < ·.1) := by
  induction l with
  | nil => simp [insertInto]
  | cons c rest ih =>
    obtain ⟨k, v⟩ := c
    obtain ⟨first, tail⟩ := List.pairwise_cons.1 h
    rw [insertInto]
    split
    · rename_i below
      refine List.pairwise_cons.2 ⟨fun b hb => ?_, h⟩
      rcases List.mem_cons.1 hb with hb | hb
      · rw [hb]; exact below
      · exact String.lt_trans below (first b hb)
    · split
      · rename_i above
        refine List.pairwise_cons.2 ⟨fun b hb => ?_, ih tail⟩
        rcases mem_insertInto hb with hb | hb
        · rw [hb]; exact above
        · exact first b hb
      · rename_i notBelow notAbove
        have same : k = key := String.le_antisymm
          (String.not_lt.1 notBelow) (String.not_lt.1 notAbove)
        refine List.pairwise_cons.2 ⟨fun b hb => ?_, tail⟩
        rw [← same]
        exact first b hb

/-- The collection with `key` bound to `value`. -/
def insert (m : Keyed α) (key : String) (value : α) : Keyed α :=
  ⟨insertInto key value m.toList, sorted_insertInto key value m.sorted⟩

/-- The value of a key. -/
def get? (m : Keyed α) (key : String) : Option α := m.toList.lookup key

/-- The collection of the given bindings, of which the last one of a key counts. -/
def ofList (bindings : List (String × α)) : Keyed α :=
  bindings.foldl (fun m (key, value) => m.insert key value) empty

def keys (m : Keyed α) : List String := m.toList.map (·.1)

end Keyed

end LightClient
