import LightClient.Session

/-!
# What a cache keeps

No operation of the cache makes up a value: what is found under a key of a table has been stored
there. So whatever is true of all that is stored is true of all that is found, across lookups,
expiry and eviction. Over a session it is enough to look at the verifications.
-/
namespace LightClient

namespace Cache

/-- Every value that is kept satisfies `P` for its table and key. -/
def Holds (P : (t : Table) → String → t.Value → Prop) (c : Cache) : Prop :=
  ∀ b ∈ c.bindings, P b.table b.key b.entry.value

variable {P Q : (t : Table) → String → t.Value → Prop} {c c' : Cache} {t : Table} {key : String}
  {now : UInt64}

theorem holds_empty (config : CacheConfig) : (empty config).Holds P := by
  intro b hb
  cases hb

theorem Holds.mono (h : c.Holds P) (weaker : ∀ t key value, P t key value → Q t key value) :
    c.Holds Q := fun b hb => weaker _ _ _ (h b hb)

/-- Entries may be dropped at will. -/
theorem Holds.of_subset (h : c.Holds P) (fewer : c'.bindings ⊆ c.bindings) : c'.Holds P :=
  fun b hb => h b (fewer hb)

theorem at?_eq_some {b : Binding} {e : Entry t} (h : b.at? t key = some e) :
    b = ⟨t, key, e⟩ := by
  obtain ⟨table, own, entry⟩ := b
  unfold Binding.at? at h
  dsimp only at h
  split at h
  · rename_i same
    obtain rfl := same
    split at h
    · rename_i same
      obtain rfl := same
      obtain rfl := Option.some.inj h
      rfl
    · cases h
  · cases h

theorem mem_of_found {e : Entry t} (h : c.entry? t key = some e) :
    ⟨t, key, e⟩ ∈ c.bindings := by
  obtain ⟨b, hb, found⟩ := List.exists_of_findSome?_eq_some h
  exact at?_eq_some found ▸ hb

theorem Holds.of_found {e : Entry t} (h : c.Holds P) (found : c.entry? t key = some e) :
    P t key e.value := h _ (mem_of_found found)

/-- A lookup finds what may be seen. -/
theorem get_fst : (c.get t key now).1 = c.peek? t key now := by
  unfold get peek?
  cases c.entry? t key with
  | none => rfl
  | some e => by_cases expired : e.isExpired now = true <;> simp [Option.filter, expired]

theorem Holds.of_peek? {value : t.Value} (h : c.Holds P) (found : c.peek? t key now = some value) :
    P t key value := by
  unfold peek? at found
  obtain ⟨e, fresh, rfl⟩ := Option.map_eq_some_iff.1 found
  exact h.of_found (Option.filter_eq_some_iff.1 fresh).1

theorem bindings_keepOnly_subset (p : Binding → Bool) : (c.keepOnly p).bindings ⊆ c.bindings :=
  fun _ hb => (List.mem_filter.1 hb).1

theorem bindings_pruneWhere_subset (p : Binding → Bool) :
    (c.pruneWhere p now).2.bindings ⊆ c.bindings := bindings_keepOnly_subset _

theorem bindings_evictOldest_subset : c.evictOldest.bindings ⊆ c.bindings := by
  unfold evictOldest
  split
  · exact fun _ hb => hb
  · exact bindings_keepOnly_subset _

theorem bindings_evict_subset (n : Nat) : (Nat.repeat evictOldest n c).bindings ⊆ c.bindings := by
  induction n with
  | zero => exact fun _ hb => hb
  | succ n ih => exact fun _ hb => ih (bindings_evictOldest_subset hb)

theorem bindings_enforceBound_subset : (c.enforceBound now).bindings ⊆ c.bindings := by
  unfold enforceBound
  split
  · exact fun _ hb => hb
  · exact fun _ hb => bindings_pruneWhere_subset _ (bindings_evict_subset _ hb)

theorem Holds.put {value : t.Value} {cachedAt expiresAt : UInt64} (h : c.Holds P)
    (new : P t key value) : (c.put t key value cachedAt expiresAt).Holds P := by
  intro b hb
  rcases List.mem_append.1 hb with old | own
  · exact h b (List.mem_filter.1 old).1
  · rw [List.mem_singleton.1 own]
    exact new

theorem Holds.store {value : t.Value} {ttl : Option Nat} (h : c.Holds P) (new : P t key value) :
    (c.store t key value now ttl).Holds P :=
  (h.put new).of_subset bindings_enforceBound_subset

theorem Holds.get (h : c.Holds P) : (c.get t key now).2.Holds P := by
  unfold Cache.get
  split
  · exact h
  · rename_i e found
    split
    · exact h.of_subset (bindings_keepOnly_subset _)
    · exact h.put (h.of_found found)

/-- Nothing is kept in any of these tables. -/
def Lacks (tables : List Table) (c : Cache) : Prop := c.Holds fun t _ _ => t ∉ tables

theorem Lacks.fewer {tables others : List Table} (h : c.Lacks tables) (fewer : others ⊆ tables) :
    c.Lacks others := h.mono fun _ _ _ absent found => absent (fewer found)

theorem Lacks.peek? {tables : List Table} (h : c.Lacks tables) (lacking : t ∈ tables) :
    c.peek? t key now = none := by
  cases found : c.peek? t key now with
  | none => rfl
  | some value => exact absurd lacking (Holds.of_peek? h found)

end Cache

namespace Session
variable {κ : Type} {callers : κ → Caller} (Inv : Verifier.State → Prop)

/-- What verifications preserve and what does not depend on dropped entries holds on. -/
theorem step_keeps
    (verifies : ∀ (s : Session) caller account, Inv s.state →
      Inv (s.verify (callers caller) account).2.state)
    (drops : ∀ s c, c.bindings ⊆ s.cache.bindings → Inv s → Inv { s with cache := c })
    {s : Session} (h : Inv s.state) (action : Action κ) : Inv (s.step callers action).state := by
  cases action with
  | verify caller account => exact verifies s caller account h
  | setClock now => exact h
  | remove t key => exact drops _ _ (Cache.bindings_keepOnly_subset _) h
  | clear => exact drops _ _ (Cache.bindings_keepOnly_subset _) h
  | clearTable t => exact drops _ _ (Cache.bindings_keepOnly_subset _) h
  | prune => exact drops _ _ (Cache.bindings_pruneWhere_subset _) h
  | pruneTable t => exact drops _ _ (Cache.bindings_pruneWhere_subset _) h
  | evict => exact drops _ _ Cache.bindings_evictOldest_subset h

theorem run_keeps
    (verifies : ∀ (s : Session) caller account, Inv s.state →
      Inv (s.verify (callers caller) account).2.state)
    (drops : ∀ s c, c.bindings ⊆ s.cache.bindings → Inv s → Inv { s with cache := c })
    {s : Session} (h : Inv s.state) (actions : List (Action κ)) :
    Inv (s.run callers actions).state := by
  induction actions generalizing s with
  | nil => exact h
  | cons action rest ih => exact ih (step_keeps Inv verifies drops h action)

end Session

end LightClient
