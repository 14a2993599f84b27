import LightClient.Clock
import LightClient.Config
import LightClient.Report

/-!
# The cache of proven data

Five tables hold what has been verified or fetched, each under text keys. An entry expires at a time
that is fixed when it is stored. The tables share one bound on the number of entries: a store that
exceeds it drops what has expired and then what was used least recently. Recency is told by a
counter that every store and every hit takes a new number from.

Module `cache` of the specification (sections 5 and 10.7): `ProofCache` and its tables with `get`,
`peek`, `entry`, `store`, `remove`, `clear`, `prune_expired`, `metrics`, and `enforce_bound` for the
eviction. Left out: the locks of the tables, as operations run one after the other; log events; and
the wrap of the access counter, see `Cache.counter`. The tables share one list of bindings, in which
their order has no meaning.
-/
namespace LightClient

/-- The tables of a cache. -/
inductive Cache.Table where
  /-- Reports by account. -/
  | reports
  /-- Receipts by chain position. -/
  | receipts
  /-- Inclusions by chain position. -/
  | inclusions
  /-- Finality of blocks by partition and height. -/
  | finalities
  /-- Walks from genesis by genesis, height and validator set. -/
  | traces
  deriving DecidableEq, Repr

namespace Cache

/-- All tables in their order. -/
def Table.all : List Table := [.reports, .receipts, .inclusions, .finalities, .traces]

/-- What a table holds. -/
@[reducible] def Table.Value : Table → Type
  | .reports => Report
  | .receipts => Receipt
  | .inclusions => Inclusion
  | .finalities => Finality
  | .traces => GenesisTrace

/-- A value with the times between which it may be used, in milliseconds. -/
structure Entry (t : Table) where
  value : t.Value
  cachedAt : UInt64
  expiresAt : UInt64
  /-- The number that the last use of the entry took, see `Cache.counter`. -/
  lastAccess : Nat

/-- Whether an entry may no longer be used. -/
def Entry.isExpired {t : Table} (now : UInt64) (e : Entry t) : Bool := e.expiresAt ≤ now

/-- An entry at its place. -/
structure Binding where
  table : Table
  key : String
  entry : Entry table

namespace Binding

/-- Whether the binding is the one for a key of a table. -/
def isAt (t : Table) (key : String) (b : Binding) : Bool := b.table = t && b.key = key

/-- The entry of a binding, if it is the one for a key of a table. -/
def at? (t : Table) (key : String) (b : Binding) : Option (Entry t) :=
  if h : b.table = t then if b.key = key then some (h ▸ b.entry) else none else none

end Binding

/-- What the bindings of a cache satisfy: a key of a table is bound once, and the numbers of the
last accesses differ and have all been taken from the counter. -/
structure Valid (bindings : List Binding) (counter : Nat) : Prop where
  keys : bindings.Pairwise fun a b => ¬(a.table = b.table ∧ a.key = b.key)
  accesses : bindings.Pairwise fun a b => a.entry.lastAccess ≠ b.entry.lastAccess
  taken : ∀ b ∈ bindings, b.entry.lastAccess < counter

namespace Valid

theorem nil (counter : Nat) : Valid [] counter := ⟨.nil, .nil, by simp⟩

theorem filter {bindings : List Binding} {counter : Nat} (p : Binding → Bool)
    (h : Valid bindings counter) : Valid (bindings.filter p) counter :=
  ⟨h.keys.filter p, h.accesses.filter p, fun b hb => h.taken b (List.mem_filter.1 hb).1⟩

theorem push {bindings : List Binding} {counter : Nat} (new : Binding)
    (h : Valid bindings counter) (stamp : new.entry.lastAccess = counter)
    (fresh : ∀ b ∈ bindings, ¬(b.table = new.table ∧ b.key = new.key)) :
    Valid (bindings ++ [new]) (counter + 1) := by
  refine ⟨List.pairwise_append.2 ⟨h.keys, List.pairwise_singleton _ _, ?_⟩,
    List.pairwise_append.2 ⟨h.accesses, List.pairwise_singleton _ _, ?_⟩, ?_⟩
  · intro a ha b hb
    rw [List.mem_singleton.1 hb]
    exact fresh a ha
  · intro a ha b hb
    rw [List.mem_singleton.1 hb, stamp]
    exact Nat.ne_of_lt (h.taken a ha)
  · intro b hb
    rcases List.mem_append.1 hb with hb | hb
    · exact Nat.lt_succ_of_lt (h.taken b hb)
    · rw [List.mem_singleton.1 hb, stamp]
      exact Nat.lt_succ_self _

end Valid

/-- Counts of what has happened to a cache. -/
structure Metrics where
  hits : UInt64
  misses : UInt64
  evictions : UInt64
  expirations : UInt64
  deriving DecidableEq, Repr

namespace Metrics

def zero : Metrics := ⟨0, 0, 0, 0⟩

/-- The share of lookups that were hits, as a decimal with six places. The share is rounded to a
floating-point number first and its decimal from a tie to the even digit. -/
def hitRate (m : Metrics) : String :=
  let lookups := m.hits + m.misses
  let share? := do
    let hits ← Binary64.ofRatio? false m.hits.toNat 1
    let all ← Binary64.ofRatio? false lookups.toNat 1
    Binary64.ofRatio? false (hits.num * all.den) (hits.den * all.num)
  match share? with
  | some share =>
    if lookups = 0 then "0.000000"
    else
      let millionths := Binary64.roundDiv (share.num * 1000000) share.den
      let places := (toString (millionths % 1000000)).toList
      toString (millionths / 1000000) ++ "."
        ++ String.ofList (List.replicate (6 - places.length) '0' ++ places)
  | none => "0.000000"

end Metrics

end Cache

/-- A cache of proven data. -/
structure Cache where
  /-- How long an entry is kept by default, in seconds. -/
  defaultTtl : UInt64
  /-- The most entries that all tables together may hold. -/
  maxEntries : UInt64
  bindings : List Cache.Binding
  /-- The number that the next access takes. A counter of 64 bits would wrap to zero after 2^64
  accesses; this one has no bound, and stands for such a counter up to that many. -/
  counter : Nat
  metrics : Cache.Metrics
  valid : Cache.Valid bindings counter

namespace Cache

/-- The empty cache. It can hold an entry whatever the settings say. -/
def empty (config : CacheConfig) : Cache :=
  { defaultTtl := config.defaultTtl, maxEntries := max config.maxEntries 1, bindings := []
    counter := 0, metrics := .zero, valid := .nil 0 }

/-- Number of entries in all tables. -/
def size (c : Cache) : Nat := c.bindings.length

/-- Number of entries in a table. -/
def sizeOf (c : Cache) (t : Table) : Nat := (c.bindings.filter (·.table = t)).length

/-- The entry for a key, expired or not. -/
def entry? (c : Cache) (t : Table) (key : String) : Option (Entry t) :=
  c.bindings.findSome? (Binding.at? t key)

/-- The value for a key unless it has expired. Nothing changes in the cache. -/
def peek? (c : Cache) (t : Table) (key : String) (now : UInt64) : Option t.Value :=
  ((c.entry? t key).filter fun e => !e.isExpired now).map (·.value)

/-- The cache with only those entries that satisfy `p`. -/
def keepOnly (c : Cache) (p : Binding → Bool) : Cache :=
  { c with bindings := c.bindings.filter p, valid := c.valid.filter p }

/-- The cache without the entry for a key. -/
def erase (c : Cache) (t : Table) (key : String) : Cache := c.keepOnly fun b => !b.isAt t key

/-- The cache with other metrics. -/
def count (c : Cache) (change : Metrics → Metrics) : Cache := { c with metrics := change c.metrics }

/-- The cache with a value bound to a key and a new number for its last access. -/
def put (c : Cache) (t : Table) (key : String) (value : t.Value) (cachedAt expiresAt : UInt64) :
    Cache :=
  let new : Binding := ⟨t, key, ⟨value, cachedAt, expiresAt, c.counter⟩⟩
  { c with
    bindings := c.bindings.filter (fun b => !b.isAt t key) ++ [new]
    counter := c.counter + 1
    valid := (c.valid.filter _).push new rfl fun b hb at_ => by
      have := (List.mem_filter.1 hb).2
      simp [Binding.isAt, at_.1, at_.2, new] at this }

/-- Looks a key up. A hit makes the entry the one used last; an expired entry is dropped. -/
def get (c : Cache) (t : Table) (key : String) (now : UInt64) : Option t.Value × Cache :=
  match c.entry? t key with
  | none => (none, c.count fun m => { m with misses := m.misses + 1 })
  | some e =>
    if e.isExpired now then
      (none, (c.erase t key).count fun m =>
        { m with misses := m.misses + 1, expirations := m.expirations + 1 })
    else
      (some e.value, (c.put t key e.value e.cachedAt e.expiresAt).count fun m =>
        { m with hits := m.hits + 1 })

/-- Drops the expired entries among those that satisfy `p`; returns how many there were. -/
def pruneWhere (c : Cache) (p : Binding → Bool) (now : UInt64) : Nat × Cache :=
  let kept := c.keepOnly fun b => !(p b && b.entry.isExpired now)
  let pruned := c.size - kept.size
  (pruned, kept.count fun m => { m with expirations := m.expirations + UInt64.ofNat pruned })

/-- Drops all expired entries. -/
def prune (c : Cache) (now : UInt64) : Nat × Cache := c.pruneWhere (fun _ => true) now

/-- Drops the expired entries of a table. -/
def pruneTable (c : Cache) (t : Table) (now : UInt64) : Nat × Cache :=
  c.pruneWhere (·.table = t) now

/-- The least number of an access in a table. -/
def oldest? (c : Cache) (t : Table) : Option Nat :=
  ((c.bindings.filter (·.table = t)).map (·.entry.lastAccess)).min?

/-- Drops the entry used least recently: among the oldest entries of the tables the oldest one. -/
def evictOldest (c : Cache) : Cache :=
  match (Table.all.filterMap c.oldest?).min? with
  | none => c
  | some oldest =>
    (c.keepOnly fun b => b.entry.lastAccess ≠ oldest).count fun m =>
      { m with evictions := m.evictions + 1 }

/-- Brings the cache back under its bound: expired entries go first, then the least recent ones. -/
def enforceBound (c : Cache) (now : UInt64) : Cache :=
  if c.size ≤ c.maxEntries.toNat then c
  else
    let pruned := (c.prune now).2
    Nat.repeat evictOldest (pruned.size - pruned.maxEntries.toNat) pruned

/-- Stores a value for `ttl` milliseconds or for the default time. -/
def store (c : Cache) (t : Table) (key : String) (value : t.Value) (now : UInt64)
    (ttl : Option Nat) : Cache :=
  let ttl := ttl.getD (1000 * c.defaultTtl.toNat)
  (c.put t key value now (Clock.after now ttl)).enforceBound now

/-- Removes the entry for a key and returns its value, expired or not. -/
def remove (c : Cache) (t : Table) (key : String) : Option t.Value × Cache :=
  ((c.entry? t key).map (·.value), c.erase t key)

/-- The cache without any entry. -/
def clear (c : Cache) : Cache := c.keepOnly fun _ => false

/-- The cache without the entries of a table. -/
def clearTable (c : Cache) (t : Table) : Cache := c.keepOnly fun b => b.table ≠ t

/-- A summary for diagnostics. -/
def describe (c : Cache) : String :=
  let ttl := if c.defaultTtl = 0 then "0ns" else toString c.defaultTtl ++ "s"
  let m := c.metrics
  "ProofCache \x7b entries: " ++ toString c.size ++ ", max_entries: " ++ toString c.maxEntries
    ++ ", default_ttl: " ++ ttl
    ++ ", metrics: CacheMetrics \x7b hits: " ++ toString m.hits ++ ", misses: " ++ toString m.misses
    ++ ", evictions: " ++ toString m.evictions ++ ", expirations: " ++ toString m.expirations
    ++ " \x7d \x7d"

end Cache

end LightClient
