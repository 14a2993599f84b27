import LightClient.Json.Canonical

/-!
# Canonical values

What a value is brought to is canonical, and a canonical value is left as it is. So a value that is
kept as it was read does not change when it is read again.
-/
namespace LightClient

namespace Keyed
variable {α : Type} {key : String} {value : α}

theorem toList_injective {m n : Keyed α} (h : m.toList = n.toList) : m = n := by
  cases m
  cases n
  simp_all

/-- A binding whose key is above all others goes to the end. -/
theorem insertInto_above {l : List (String × α)} (above : ∀ b ∈ l, b.1 < key) :
    insertInto key value l = l ++ [(key, value)] := by
  induction l with
  | nil => rfl
  | cons b rest ih =>
    obtain ⟨k, v⟩ := b
    have here : k < key := above _ List.mem_cons_self
    have notBelow : ¬ key < k := fun below => String.lt_irrefl k (String.lt_trans here below)
    rw [insertInto, if_neg notBelow, if_pos here,
      ih fun b hb => above b (List.mem_cons_of_mem _ hb), List.cons_append]

theorem toList_foldl_insert (bindings : List (String × α)) (m : Keyed α)
    (sorted : (m.toList ++ bindings).Pairwise (·.1 < ·.1)) :
    (bindings.foldl (fun m b => m.insert b.1 b.2) m).toList = m.toList ++ bindings := by
  induction bindings generalizing m with
  | nil => simp
  | cons b rest ih =>
    have above : ∀ c ∈ m.toList, c.1 < b.1 := fun c hc =>
      (List.pairwise_append.1 sorted).2.2 c hc b List.mem_cons_self
    have inserted : (m.insert b.1 b.2).toList = m.toList ++ [b] := insertInto_above above
    have whole : (m.insert b.1 b.2).toList ++ rest = m.toList ++ b :: rest := by
      rw [inserted, List.append_assoc]
      rfl
    rw [List.foldl_cons, ih _ (whole ▸ sorted), whole]

/-- The bindings of a collection make up the collection again. -/
theorem ofList_toList (m : Keyed α) : ofList m.toList = m :=
  toList_injective (toList_foldl_insert m.toList empty m.sorted)

/-- Every binding of a collection is among those that it was made of. -/
theorem mem_of_mem_ofList {bindings : List (String × α)} {b : String × α}
    (h : b ∈ (ofList bindings).toList) : b ∈ bindings := by
  have later (m : Keyed α) :
      b ∈ (bindings.foldl (fun m b => m.insert b.1 b.2) m).toList → b ∈ m.toList ∨
      b ∈ bindings := by
    clear h
    induction bindings generalizing m with
    | nil => exact .inl
    | cons c rest ih =>
      intro h
      rcases ih (m.insert c.1 c.2) h with h | h
      · rcases mem_insertInto h with rfl | h
        · exact .inr List.mem_cons_self
        · exact .inl h
      · exact .inr (List.mem_cons_of_mem _ h)
  exact (later empty h).resolve_left List.not_mem_nil

end Keyed

namespace Json

/-- The members of every object are in ascending order of distinct names, nothing is unreadable, and
at most `depth` arrays and objects stand within each other. -/
inductive Canonical : Nat → Json → Prop where
  | null {depth : Nat} : Canonical depth .null
  | bool {depth : Nat} (value : Bool) : Canonical depth (.bool value)
  | integer {depth : Nat} (value : Int) : Canonical depth (.integer value)
  | decimal {depth : Nat} (value : Binary64) : Canonical depth (.decimal value)
  | string {depth : Nat} (text : String) : Canonical depth (.string text)
  | array {depth : Nat} {items : List Json} (all : ∀ item ∈ items, Canonical depth item) :
    Canonical (depth + 1) (.array items)
  | object {depth : Nat} {members : List (String × Json)} (sorted : members.Pairwise (·.1 < ·.1))
    (all : ∀ m ∈ members, Canonical depth m.2) : Canonical (depth + 1) (.object members)

theorem canonicalItems?_eq_self {depth : Nat} {items : List Json}
    (each : ∀ item ∈ items, canonical? depth item = some item) :
    canonicalItems? depth items = some items := by
  induction items with
  | nil => rfl
  | cons item items ih =>
    simp [canonicalItems?, each item List.mem_cons_self,
      ih fun i hi => each i (List.mem_cons_of_mem _ hi)]

theorem canonicalMembers?_eq_self {depth : Nat} {members : List (String × Json)}
    (each : ∀ m ∈ members, canonical? depth m.2 = some m.2) :
    canonicalMembers? depth members = some members := by
  induction members with
  | nil => rfl
  | cons member members ih =>
    simp [canonicalMembers?, each member List.mem_cons_self,
      ih fun m hm => each m (List.mem_cons_of_mem _ hm)]

/-- A canonical value is its own canonical form. -/
theorem canonical?_eq_self {depth : Nat} {value : Json} (h : Canonical depth value) :
    canonical? depth value = some value := by
  induction h with
  | null => rfl
  | bool _ => rfl
  | integer _ => rfl
  | decimal _ => rfl
  | string _ => rfl
  | array _ ih => rw [canonical?, canonicalItems?_eq_self ih, Option.map_some]
  | object sorted _ ih =>
    rw [canonical?, canonicalMembers?_eq_self ih, Option.map_some]
    exact congrArg (fun m : Keyed Json => some (object m.toList)) (Keyed.ofList_toList ⟨_, sorted⟩)

mutual

/-- Every canonical form is canonical. -/
theorem canonical_of_canonical? {depth : Nat} : ∀ {value form : Json},
    canonical? depth value = some form → Canonical depth form
  | .null, _, h => by cases h; exact .null
  | .bool b, _, h => by cases h; exact .bool b
  | .integer n, _, h => by cases h; exact .integer n
  | .decimal x, _, h => by cases h; exact .decimal x
  | .string text, _, h => by cases h; exact .string text
  | .array items, form, h => by
    cases depth with
    | zero => simp [canonical?] at h
    | succ depth =>
      rw [canonical?] at h
      obtain ⟨kept, read, rfl⟩ := Option.map_eq_some_iff.1 h
      exact .array (canonical_of_canonicalItems? read)
  | .object members, form, h => by
    cases depth with
    | zero => simp [canonical?] at h
    | succ depth =>
      rw [canonical?] at h
      obtain ⟨kept, read, rfl⟩ := Option.map_eq_some_iff.1 h
      exact .object (Keyed.ofList kept).sorted fun m hm =>
        canonical_of_canonicalMembers? read m (Keyed.mem_of_mem_ofList hm)

theorem canonical_of_canonicalItems? {depth : Nat} : ∀ {items kept : List Json},
    canonicalItems? depth items = some kept → ∀ item ∈ kept, Canonical depth item
  | [], _, h => by cases h; exact fun _ h => absurd h List.not_mem_nil
  | item :: items, kept, h => by
    simp only [canonicalItems?, Option.bind_eq_bind, Option.bind_eq_some_iff, Option.pure_def,
      Option.some.injEq] at h
    obtain ⟨form, here, forms, later, rfl⟩ := h
    exact List.forall_mem_cons.2
      ⟨canonical_of_canonical? here, canonical_of_canonicalItems? later⟩

theorem canonical_of_canonicalMembers? {depth : Nat} : ∀ {members kept : List (String × Json)},
    canonicalMembers? depth members = some kept → ∀ m ∈ kept, Canonical depth m.2
  | [], _, h => by cases h; exact fun _ h => absurd h List.not_mem_nil
  | (name, value) :: members, kept, h => by
    simp only [canonicalMembers?, Option.bind_eq_bind, Option.bind_eq_some_iff, Option.pure_def,
      Option.some.injEq] at h
    obtain ⟨form, here, forms, later, rfl⟩ := h
    exact List.forall_mem_cons.2
      ⟨canonical_of_canonical? here, canonical_of_canonicalMembers? later⟩

end

end Json

end LightClient
