import LightClient.Proofs.Recency

/-!
# The counters of a cache

Every lookup of a cache is a hit or a miss. Every entry comes in by a store under a key that was not
present and leaves once: because it has expired, because there is no room for it, or because it is
removed or cleared on request. The counters tell lookups and the first two of these ways. So over
any sequence of operations they account for each lookup and, with what was removed or cleared, for
each entry.
-/
namespace LightClient

namespace Cache

/-- The counters after more hits, misses, evictions and expirations. -/
def Metrics.add (m : Metrics) (hits misses evictions expirations : Nat) : Metrics :=
  { hits := m.hits + UInt64.ofNat hits
    misses := m.misses + UInt64.ofNat misses
    evictions := m.evictions + UInt64.ofNat evictions
    expirations := m.expirations + UInt64.ofNat expirations }

@[simp] theorem Metrics.add_zero (m : Metrics) : m.add 0 0 0 0 = m := by
  simp [Metrics.add]

theorem Metrics.add_add (m : Metrics) (h i e x h' i' e' x' : Nat) :
    (m.add h i e x).add h' i' e' x' = m.add (h + h') (i + i') (e + e') (x + x') := by
  simp [Metrics.add, UInt64.ofNat_add, UInt64.add_assoc]

section
variable {c c' : Cache} {t : Table} {key : String} {now : UInt64}

/-- The entries of a cache whose keys are not present in another one. -/
def lost (c c' : Cache) : List Binding :=
  c.bindings.filter fun b => (c'.entry? b.table b.key).isNone

theorem nodup_bindings (c : Cache) : c.bindings.Nodup :=
  c.valid.keys.imp fun differ same => differ ⟨by rw [same], by rw [same]⟩

/-- Where entries are only dropped, a key is present as long as its entry is. -/
theorem isSome_entry?_iff {b : Binding} (fewer : c'.bindings ⊆ c.bindings) (hb : b ∈ c.bindings) :
    (c'.entry? b.table b.key).isSome ↔ b ∈ c'.bindings := by
  rw [Option.isSome_iff_exists]
  constructor
  · intro present
    obtain ⟨e, found⟩ := present
    have member := entry?_eq_some.1 found
    rwa [eq_of_place hb (fewer member) rfl rfl]
  · intro member
    exact ⟨b.entry, entry?_eq_some.2 member⟩

/-- What satisfies a test is kept or lost. -/
theorem countP_lost (fewer : c'.bindings ⊆ c.bindings) (p : Binding → Bool) :
    c.bindings.countP p = c'.bindings.countP p + (c.lost c').countP p := by
  have kept : (c.bindings.filter fun b => (c'.entry? b.table b.key).isSome).Perm c'.bindings := by
    rw [List.perm_ext_iff_of_nodup ((nodup_bindings c).filter _) (nodup_bindings c')]
    intro b
    rw [List.mem_filter]
    constructor
    · intro h
      exact (isSome_entry?_iff fewer h.1).1 h.2
    · intro h
      exact ⟨fewer h, (isSome_entry?_iff fewer (fewer h)).2 h⟩
  have parts := (List.filter_append_perm
    (fun b : Binding => (c'.entry? b.table b.key).isSome) c.bindings).countP_eq p
  rw [List.countP_append, kept.countP_eq] at parts
  rw [← parts, lost]
  simp only [Option.not_isSome]

theorem size_lost (fewer : c'.bindings ⊆ c.bindings) : c.size = c'.size + (c.lost c').length := by
  have all := countP_lost fewer fun _ => true
  rw [List.countP_true] at all
  exact all

theorem lost_self (c : Cache) : c.lost c = [] := by
  have size := size_lost (List.Subset.refl c.bindings)
  apply List.length_eq_zero_iff.1
  omega

theorem lost_keepOnly (p : Binding → Bool) :
    c.lost (c.keepOnly p) = c.bindings.filter fun b => !p b := by
  apply List.filter_congr
  intro b hb
  have kept := isSome_entry?_iff (bindings_keepOnly_subset p) hb
  have member : b ∈ (c.keepOnly p).bindings ↔ p b = true := by
    change b ∈ c.bindings.filter p ↔ _
    simp [hb]
  rw [member] at kept
  rw [← Option.not_isSome, Bool.eq_iff_iff.2 kept]

theorem filter_isAt_bindings (c : Cache) (t : Table) (key : String) :
    c.bindings.filter (·.isAt t key) =
      ((c.entry? t key).map fun e => (⟨t, key, e⟩ : Binding)).toList := by
  have own {b : Binding} (at_ : b.isAt t key = true) : ∃ e, b = ⟨t, key, e⟩ := by
    obtain ⟨table, name, e⟩ := b
    obtain ⟨rfl, rfl⟩ : table = t ∧ name = key := by simpa [Binding.isAt] using at_
    exact ⟨e, rfl⟩
  cases found : c.entry? t key with
  | none =>
    apply List.filter_eq_nil_iff.2
    intro b hb at_
    obtain ⟨e, rfl⟩ := own at_
    rw [entry?_eq_some.2 hb] at found
    cases found
  | some e =>
    have member := entry?_eq_some.1 found
    apply List.perm_singleton.1
    rw [List.perm_ext_iff_of_nodup ((nodup_bindings c).filter _) (by simp)]
    intro b
    rw [List.mem_filter, List.mem_singleton]
    constructor
    · intro h
      obtain ⟨e', rfl⟩ := own h.2
      exact eq_of_place h.1 member rfl rfl
    · rintro rfl
      exact ⟨member, by simp [Binding.isAt]⟩

theorem lost_erase (c : Cache) (t : Table) (key : String) :
    c.lost (c.erase t key) = ((c.entry? t key).map fun e => (⟨t, key, e⟩ : Binding)).toList := by
  rw [← filter_isAt_bindings, erase, lost_keepOnly]
  simp only [Bool.not_not]

/-- A key that was present still has one entry, and a new one has its first. -/
theorem size_put {value : t.Value} {cachedAt expiresAt : UInt64} :
    (c.put t key value cachedAt expiresAt).size =
      c.size + if (c.entry? t key).isNone then 1 else 0 := by
  have parts := (List.filter_append_perm (fun b : Binding => b.isAt t key) c.bindings).length_eq
  rw [List.length_append, filter_isAt_bindings] at parts
  change (_ ++ [_] : List Binding).length = c.bindings.length + _
  rw [List.length_append, ← parts]
  cases c.entry? t key with
  | none => simp
  | some e => simp [Nat.add_comm]

theorem size_put_of_found {e : Entry t} {value : t.Value} {cachedAt expiresAt : UInt64}
    (found : c.entry? t key = some e) : (c.put t key value cachedAt expiresAt).size = c.size := by
  rw [size_put, found]
  rfl

theorem metrics_evictOldest (present : c.bindings ≠ []) :
    c.evictOldest.metrics = c.metrics.add 0 0 1 0 := by
  unfold evictOldest
  rw [min?_oldest]
  cases least : (c.bindings.map (·.entry.lastAccess)).min? with
  | none => exact absurd (List.map_eq_nil_iff.1 (List.min?_eq_none_iff.1 least)) present
  | some oldest => simp [count, keepOnly, Metrics.add]

theorem size_evict (n : Nat) : (Nat.repeat evictOldest n c).size = c.size - n := by
  rw [← length_byRecency, byRecency_evict, List.length_take, length_byRecency]
  omega

theorem metrics_evict {n : Nat} (enough : n ≤ c.size) :
    (Nat.repeat evictOldest n c).metrics = c.metrics.add 0 0 n 0 := by
  induction n with
  | zero => exact (Metrics.add_zero _).symm
  | succ n ih =>
    have left := size_evict (c := c) n
    have present : (Nat.repeat evictOldest n c).bindings ≠ [] := by
      intro none
      rw [size, none, List.length_nil] at left
      omega
    have step := metrics_evictOldest present
    rw [ih (by omega), Metrics.add_add] at step
    exact step

theorem length_expired_add (now : UInt64) (bindings : List Binding) : bindings.length =
    bindings.countP (·.entry.isExpired now) + bindings.countP (!·.entry.isExpired now) := by
  rw [List.length_eq_countP_add_countP fun b : Binding => b.entry.isExpired now]
  simp

theorem metrics_pruned (c : Cache) (p : Binding → Bool) (now : UInt64) :
    (c.pruneWhere p now).2.metrics =
      c.metrics.add 0 0 0 (c.size - (c.pruneWhere p now).2.size) := by
  have zero (n : UInt64) : n + UInt64.ofNat 0 = n := UInt64.add_zero n
  rw [Metrics.add, zero, zero, zero]
  rfl

/-- All that is pruned has expired. -/
theorem metrics_pruneWhere (c : Cache) (p : Binding → Bool) (now : UInt64) :
    let c' := (c.pruneWhere p now).2
    c'.metrics = c.metrics.add 0 0 ((c.lost c').countP (!·.entry.isExpired now))
      ((c.lost c').countP (·.entry.isExpired now)) := by
  intro c'
  have live : (c.lost c').countP (!·.entry.isExpired now) = 0 := by
    apply List.countP_eq_zero.2
    intro b hb
    change b ∈ c.lost (c.keepOnly fun b => !(p b && b.entry.isExpired now)) at hb
    rw [lost_keepOnly, List.mem_filter, Bool.not_not, Bool.and_eq_true] at hb
    simp [hb.2.2]
  have all : c.size = c'.size + (c.lost c').length := size_lost (bindings_pruneWhere_subset p)
  have gone := length_expired_add now (c.lost c')
  have pruned : (c.lost c').countP (·.entry.isExpired now) = c.size - c'.size := by
    omega
  rw [live, pruned]
  exact metrics_pruned c p now

/-- A store that leaves too many entries counts the expired ones, then one eviction for each that is
still too many. -/
theorem metrics_enforceBound (c : Cache) (now : UInt64) :
    let c' := c.enforceBound now
    c'.metrics = c.metrics.add 0 0 ((c.lost c').countP (!·.entry.isExpired now))
      ((c.lost c').countP (·.entry.isExpired now)) := by
  intro c'
  by_cases room : c.size ≤ c.maxEntries.toNat
  · have same : c' = c := if_pos room
    rw [same, lost_self]
    exact (Metrics.add_zero _).symm
  · let pruned := (c.prune now).2
    let many := pruned.size - pruned.maxEntries.toNat
    have after : c' = Nat.repeat evictOldest many pruned := if_neg room
    have size : c'.size = pruned.size - many := by
      rw [after, size_evict]
    have kept : pruned.size = c.bindings.countP (!·.entry.isExpired now) := by
      rw [List.countP_eq_length_filter]
      rfl
    -- No expired entry is evicted, since none is left by then.
    have fresh : c'.bindings.countP (·.entry.isExpired now) = 0 := by
      apply List.countP_eq_zero.2
      intro b hb
      rw [after] at hb
      have live := (List.mem_filter.1 (bindings_evict_subset many hb)).2
      simpa using live
    have fewer : c'.bindings ⊆ c.bindings := bindings_enforceBound_subset
    have expired := countP_lost fewer (·.entry.isExpired now)
    have all : c.size = c'.size + (c.lost c').length := size_lost fewer
    have before : c.size = _ := length_expired_add now c.bindings
    have gone := length_expired_add now (c.lost c')
    have expirations : (c.lost c').countP (·.entry.isExpired now) = c.size - pruned.size := by
      omega
    have evictions : (c.lost c').countP (!·.entry.isExpired now) = many := by
      omega
    have first : pruned.metrics = c.metrics.add 0 0 0 (c.size - pruned.size) :=
      metrics_pruned c _ now
    have enough : many ≤ pruned.size := Nat.sub_le _ _
    rw [expirations, evictions, after, metrics_evict enough, first, Metrics.add_add]
    simp only [Nat.add_zero, Nat.zero_add]

/-- The three outcomes of a lookup. -/
theorem get_cases (c : Cache) (t : Table) (key : String) (now : UInt64) :
    (c.entry? t key = none ∧
      c.get t key now = (none, c.count fun m => { m with misses := m.misses + 1 })) ∨
    (∃ e, c.entry? t key = some e ∧ e.isExpired now = true ∧
      c.get t key now = (none, (c.erase t key).count fun m =>
        { m with misses := m.misses + 1, expirations := m.expirations + 1 })) ∨
    ∃ e, c.entry? t key = some e ∧ e.isExpired now = false ∧
      c.get t key now = (some e.value, (c.put t key e.value e.cachedAt e.expiresAt).count fun m =>
        { m with hits := m.hits + 1 }) := by
  cases found : c.entry? t key with
  | none => exact .inl ⟨rfl, by simp only [get, found]⟩
  | some e =>
    cases expired : e.isExpired now with
    | true => exact .inr (.inl ⟨e, rfl, expired, by simp only [get, found, expired, if_true]⟩)
    | false => exact .inr (.inr ⟨e, rfl, expired, by simp [get, found, expired]⟩)

/-- A key that is present stays so when its entry is put anew. -/
theorem lost_put {e : Entry t} {value : t.Value} {cachedAt expiresAt : UInt64}
    (found : c.entry? t key = some e) : c.lost (c.put t key value cachedAt expiresAt) = [] := by
  apply List.filter_eq_nil_iff.2
  intro b hb
  rw [Bool.not_eq_true, Option.isNone_eq_false_iff, Option.isSome_iff_exists]
  by_cases at_ : b.isAt t key = true
  · obtain ⟨table, key⟩ : b.table = t ∧ b.key = key := by simpa [Binding.isAt] using at_
    subst table key
    exact ⟨⟨value, cachedAt, expiresAt, c.counter⟩, entry?_eq_some.2 (by simp [put])⟩
  · exact ⟨b.entry, entry?_eq_some.2 (by simp [put, hb, at_])⟩

end

/-- An operation with the cache that it finds. -/
structure Served where
  before : Cache
  now : UInt64
  operation : Operation

namespace Served

def answer (s : Served) : Answer := (s.before.serve s.now s.operation).1

def after (s : Served) : Cache := (s.before.serve s.now s.operation).2

/-- One for a lookup. -/
def lookups (s : Served) : Nat :=
  match s.operation with
  | .get .. => 1
  | _ => 0

/-- One for a lookup that returns a value. -/
def hits (s : Served) : Nat :=
  match s.operation, s.answer with
  | .get .., .value (some _) => 1
  | _, _ => 0

/-- One for a lookup that returns nothing. -/
def misses (s : Served) : Nat :=
  match s.operation, s.answer with
  | .get .., .value none => 1
  | _, _ => 0

/-- One for a store under a key that is not present in its table. -/
def arrivals (s : Served) : Nat :=
  match s.operation with
  | .store t key _ _ => if (s.before.entry? t key).isNone then 1 else 0
  | _ => 0

/-- One for a removal that returns a value. -/
def removals (s : Served) : Nat :=
  match s.operation, s.answer with
  | .remove .., .value (some _) => 1
  | _, _ => 0

/-- The number of entries that are cleared. -/
def cleared (s : Served) : Nat :=
  match s.operation with
  | .clear => s.before.size
  | .clearTable t => s.before.sizeOf t
  | _ => 0

/-- The cache from which entries may go: a store has put its own before. -/
def filled (s : Served) : Cache :=
  match s.operation with
  | .store t key value ttl =>
    s.before.put t key value s.now (Clock.after s.now (ttl.getD (1000 * s.before.defaultTtl.toNat)))
  | _ => s.before

/-- The entries that are no longer there afterwards. -/
def departed (s : Served) : List Binding := s.filled.lost s.after

/-- The entries that are no longer there although nobody has asked for this. -/
def dropped (s : Served) : List Binding :=
  match s.operation with
  | .remove .. | .clear | .clearTable .. => []
  | _ => s.departed

/-- The number of entries that are dropped because they have expired. -/
def expirations (s : Served) : Nat := s.dropped.countP (·.entry.isExpired s.now)

/-- The number of entries that are dropped before they have expired. -/
def evictions (s : Served) : Nat := s.dropped.countP (!·.entry.isExpired s.now)

theorem lookups_eq (s : Served) : s.lookups = s.hits + s.misses := by
  obtain ⟨c, now, operation⟩ := s
  cases operation with
  | get t key =>
    simp only [lookups, hits, misses, answer, serve]
    cases (c.get t key now).1 <;> rfl
  | _ => rfl

/-- Each counter has grown by what has happened. -/
theorem metrics_after (s : Served) :
    s.after.metrics = s.before.metrics.add s.hits s.misses s.evictions s.expirations := by
  obtain ⟨c, now, operation⟩ := s
  cases operation with
  | get t key =>
    have dropped : (mk c now (.get t key)).dropped = c.lost (c.get t key now).2 := rfl
    rcases get_cases c t key now with ⟨-, looked⟩ | ⟨e, found, expired, looked⟩ |
        ⟨e, found, -, looked⟩
    · have gone : (mk c now (.get t key)).dropped = [] := by
        rw [dropped, looked]
        exact lost_self c
      simp [after, hits, misses, evictions, expirations, gone, answer, serve, looked, count,
        Metrics.add]
    · have gone : (mk c now (.get t key)).dropped = [⟨t, key, e⟩] := by
        rw [dropped, looked]
        exact (lost_erase c t key).trans (by rw [found]; rfl)
      simp [after, hits, misses, evictions, expirations, gone, expired, answer, serve,
        looked, count, erase, keepOnly, Metrics.add]
    · have gone : (mk c now (.get t key)).dropped = [] := by
        rw [dropped, looked]
        exact lost_put found
      simp [after, hits, misses, evictions, expirations, gone, answer, serve, looked, count, put,
        Metrics.add]
  | store t key value ttl =>
    exact metrics_enforceBound (mk c now (.store t key value ttl)).filled now
  | prune => exact metrics_pruneWhere c (fun _ => true) now
  | pruneTable t => exact metrics_pruneWhere c (·.table = t) now
  | _ =>
    simp [after, serve, hits, misses, evictions, expirations, dropped, departed,
      filled, lost_self, remove, erase, clear, clearTable, keepOnly]

/-- What was there or has come is still there or has gone. -/
theorem size_after (s : Served) :
    s.before.size + s.arrivals = s.after.size + s.departed.length := by
  have filled : s.filled.size = s.before.size + s.arrivals := by
    obtain ⟨c, now, operation⟩ := s
    cases operation with
    | store t key value ttl => exact size_put
    | _ => rfl
  rw [← filled]
  obtain ⟨c, now, operation⟩ := s
  cases operation with
  | get t key =>
    change c.size = (c.get t key now).2.size + (c.lost (c.get t key now).2).length
    rcases get_cases c t key now with ⟨-, looked⟩ | ⟨e, -, -, looked⟩ | ⟨e, found, -, looked⟩
    · rw [looked]
      exact size_lost fun _ hb => hb
    · rw [looked]
      exact size_lost (bindings_keepOnly_subset _)
    · rw [looked]
      have same : (c.put t key e.value e.cachedAt e.expiresAt).size = c.size :=
        size_put_of_found found
      have gone : c.lost (c.put t key e.value e.cachedAt e.expiresAt) = [] := lost_put found
      change c.size = (c.put t key e.value e.cachedAt e.expiresAt).size
        + (c.lost (c.put t key e.value e.cachedAt e.expiresAt)).length
      rw [same, gone]
      rfl
  | store t key value ttl => exact size_lost bindings_enforceBound_subset
  | prune => exact size_lost (bindings_pruneWhere_subset _)
  | pruneTable t => exact size_lost (bindings_pruneWhere_subset _)
  | remove t key => exact size_lost (bindings_keepOnly_subset _)
  | clear => exact size_lost (bindings_keepOnly_subset _)
  | clearTable t => exact size_lost (bindings_keepOnly_subset _)
  | _ => exact size_lost fun _ hb => hb

/-- Each entry that has gone is counted once. -/
theorem length_departed (s : Served) :
    s.departed.length = s.evictions + s.expirations + s.removals + s.cleared := by
  have counted := length_expired_add s.now s.dropped
  obtain ⟨c, now, operation⟩ := s
  cases operation with
  | remove t key =>
    change (c.lost (c.erase t key)).length = 0 + 0 + _ + 0
    rw [lost_erase]
    simp only [removals, answer, serve, remove]
    cases c.entry? t key <;> rfl
  | clear =>
    change (c.lost c.clear).length = 0 + 0 + 0 + c.size
    rw [clear, lost_keepOnly]
    simp [size]
  | clearTable t =>
    change (c.lost (c.clearTable t)).length = 0 + 0 + 0 + c.sizeOf t
    rw [clearTable, lost_keepOnly]
    simp [sizeOf]
  | _ =>
    change _ = _ + _ + 0 + 0
    unfold evictions expirations
    dsimp only [dropped] at counted ⊢
    omega

/-- What operations come to together. -/
def total (amount : Served → Nat) : List Served → Nat
  | [] => 0
  | s :: rest => amount s + total amount rest

end Served

open Served

/-- The operations of a run, each with the cache that it finds. -/
def history (c : Cache) : List Turn → List Served
  | [] => []
  | turn :: rest =>
    let served : Served := ⟨c.rearrange turn.arrangement, turn.now, turn.operation⟩
    served :: served.after.history rest

theorem size_rearrange (c : Cache) (a : Arrangement) : (c.rearrange a).size = c.size :=
  (a.perm c.bindings).length_eq

theorem answers_history (c : Cache) (turns : List Turn) :
    (c.history turns).map answer = (c.serveAll turns).1 := by
  induction turns generalizing c with
  | nil => rfl
  | cons turn rest ih => exact congrArg _ (ih _)

theorem total_lookups (history : List Served) :
    total lookups history = total hits history + total misses history := by
  induction history with
  | nil => rfl
  | cons s rest ih =>
    have step := lookups_eq s
    simp only [total]
    omega

/-- The counters of a run, up to their width. -/
theorem metrics_serveAll (c : Cache) (turns : List Turn) :
    (c.serveAll turns).2.metrics =
      c.metrics.add (total hits (c.history turns)) (total misses (c.history turns))
        (total evictions (c.history turns)) (total expirations (c.history turns)) := by
  induction turns generalizing c with
  | nil => exact (Metrics.add_zero _).symm
  | cons turn rest ih =>
    have step := metrics_after ⟨c.rearrange turn.arrangement, turn.now, turn.operation⟩
    have later := ih (after ⟨c.rearrange turn.arrangement, turn.now, turn.operation⟩)
    rw [step, Metrics.add_add] at later
    exact later

/-- What a run has put into a cache is there or has gone, whatever the width of the counters. -/
theorem size_serveAll (c : Cache) (turns : List Turn) :
    c.size + total arrivals (c.history turns) =
      (c.serveAll turns).2.size + total evictions (c.history turns)
        + total expirations (c.history turns) + total removals (c.history turns)
        + total cleared (c.history turns) := by
  induction turns generalizing c with
  | nil => rfl
  | cons turn rest ih =>
    let s : Served := ⟨c.rearrange turn.arrangement, turn.now, turn.operation⟩
    have start : s.before.size = c.size := size_rearrange c _
    have kept := size_after s
    have gone := length_departed s
    have later := ih s.after
    change c.size + total arrivals (s :: s.after.history rest) =
      (s.after.serveAll rest).2.size + total evictions (s :: s.after.history rest)
        + total expirations (s :: s.after.history rest) + total removals (s :: s.after.history rest)
        + total cleared (s :: s.after.history rest)
    simp only [total]
    omega

/-- No counter of a run exceeds its width. -/
structure Fits (history : List Served) : Prop where
  hits : total Served.hits history < UInt64.size
  misses : total Served.misses history < UInt64.size
  evictions : total Served.evictions history < UInt64.size
  expirations : total Served.expirations history < UInt64.size

/-- Over any sequence of operations, at any times and with the bindings in any order, each lookup
counts as a hit if it returns a value and as a miss if not, and every entry that a store has brought
in under a key that was not present is still there, or has gone as one that is counted as an
eviction or an expiration, that a removal returned, or that was cleared. In each operation what goes
is counted once. -/
theorem counters_balance (settings : CacheConfig) (turns : List Turn)
    (fits : Fits ((empty settings).history turns)) :
    let history := (empty settings).history turns
    let cache := ((empty settings).serveAll turns).2
    history.map answer = ((empty settings).serveAll turns).1 ∧
    cache.metrics.hits.toNat + cache.metrics.misses.toNat = total lookups history ∧
    cache.metrics.hits.toNat = total hits history ∧
    cache.metrics.evictions.toNat = total evictions history ∧
    cache.metrics.expirations.toNat = total expirations history ∧
    total arrivals history = cache.size + cache.metrics.evictions.toNat
      + cache.metrics.expirations.toNat + total removals history + total cleared history ∧
    ∀ s ∈ history,
      s.departed.length = s.evictions + s.expirations + s.removals + s.cleared := by
  intro history cache
  have counted : cache.metrics = Metrics.zero.add (total hits history) (total misses history)
      (total evictions history) (total expirations history) :=
    metrics_serveAll (empty settings) turns
  have entries : (empty settings).size + total arrivals history = _ :=
    size_serveAll (empty settings) turns
  have exactly {n : Nat} (narrow : n < UInt64.size) : (0 + UInt64.ofNat n).toNat = n := by
    rw [UInt64.zero_add, UInt64.toNat_ofNat_of_lt' narrow]
  have hit : cache.metrics.hits.toNat = total hits history := by
    rw [counted]
    exact exactly fits.hits
  have missed : cache.metrics.misses.toNat = total misses history := by
    rw [counted]
    exact exactly fits.misses
  have evicted : cache.metrics.evictions.toNat = total evictions history := by
    rw [counted]
    exact exactly fits.evictions
  have expired : cache.metrics.expirations.toNat = total expirations history := by
    rw [counted]
    exact exactly fits.expirations
  refine ⟨answers_history _ turns, ?_, hit, evicted, expired, ?_, fun s _ => length_departed s⟩
  · rw [hit, missed, total_lookups]
  · rw [evicted, expired, ← entries]
    exact (Nat.zero_add _).symm

/-- An operation on a cache whose bindings are found in the order in which they are kept. -/
def Turn.plain (now : UInt64) (operation : Operation) : Turn :=
  ⟨now, ⟨id, List.Perm.refl⟩, operation⟩

/-- A run in a cache with room for two entries. One entry is evicted, one expires before a lookup
and one as soon as it is stored, one is removed, one is cleared, and one is left. -/
def everyWay : List Turn :=
  let receipt : Receipt := ⟨.zero, .zero, 0, []⟩
  let trace : GenesisTrace := ⟨.zero, 0, [0], 0⟩
  [.plain 0 (.store .receipts "a" receipt none), .plain 0 (.store .traces "a" trace none),
    .plain 1 (.get .receipts "a"), .plain 1 (.store .receipts "b" receipt (some 5)),
    .plain 2 (.get .traces "a"), .plain 6 (.get .receipts "b"),
    .plain 6 (.store .traces "c" trace none), .plain 7 (.store .receipts "c" receipt (some 0)),
    .plain 8 (.remove .traces "c"), .plain 8 (.store .receipts "a" receipt none),
    .plain 9 (.clearTable .receipts), .plain 9 (.store .receipts "a" receipt none)]

theorem everyWay_accounted :
    let history := (empty ⟨300, 2⟩).history everyWay
    let cache := ((empty ⟨300, 2⟩).serveAll everyWay).2
    Fits history ∧ cache.metrics = ⟨1, 2, 1, 2⟩ ∧ total lookups history = 3 ∧
      total arrivals history = cache.size + 1 + 2 + total removals history +
        total cleared history := by
  intro history cache
  have fits : Fits history :=
    ⟨by decide +kernel, by decide +kernel, by decide +kernel, by decide +kernel⟩
  have metrics : cache.metrics = ⟨1, 2, 1, 2⟩ := by decide +kernel
  obtain ⟨-, lookups, -, -, -, entries, -⟩ := counters_balance ⟨300, 2⟩ everyWay fits
  change cache.metrics.hits.toNat + cache.metrics.misses.toNat = _ at lookups
  change _ = cache.size + cache.metrics.evictions.toNat + cache.metrics.expirations.toNat + _ + _
    at entries
  rw [metrics] at lookups entries
  exact ⟨fits, metrics, lookups.symm, entries⟩

end Cache

end LightClient
