import LightClient.Proofs.Retention
import Mathlib.Data.List.Pairwise

/-!
# The cache as one list in the order of use

Nobody who uses a cache can tell its tables with their numbered accesses from one list of records
that has the record used last in front and forgets from its end. The list knows neither numbers nor
tables of its own, and nothing depends on the order in which the cache happens to keep its bindings.
-/
namespace LightClient

/-- A deadline is the sum, but not more than 64 bits can hold. -/
theorem Clock.toNat_after (now : UInt64) (ms : Nat) :
    (Clock.after now ms).toNat = min (now.toNat + ms) (UInt64.size - 1) := by
  have fits : min (now.toNat + ms) Clock.last < UInt64.size := by
    unfold Clock.last UInt64.size
    omega
  exact UInt64.toNat_ofNat_of_lt' fits

namespace Cache

/-- A binding as it is seen from outside: its last access has no number. -/
structure Record where
  table : Table
  key : String
  value : table.Value
  cachedAt : Nat
  expiresAt : Nat

def Binding.record (b : Binding) : Record :=
  ⟨b.table, b.key, b.entry.value, b.entry.cachedAt.toNat, b.entry.expiresAt.toNat⟩

namespace Record

def isAt (t : Table) (key : String) (x : Record) : Bool := x.table = t && x.key = key

def isExpired (now : Nat) (x : Record) : Bool := x.expiresAt ≤ now

/-- The value together with its table. -/
def content (x : Record) : (t : Table) × t.Value := ⟨x.table, x.value⟩

@[simp] theorem isExpired_record (now : UInt64) (b : Binding) :
    b.record.isExpired now.toNat = b.entry.isExpired now := rfl

end Record

/-- Records with a bound on their number, the one used last first. -/
structure Recency where
  /-- How long a record is kept by default, in milliseconds. -/
  ttl : Nat
  bound : Nat
  records : List Record
  unique : records.Pairwise fun a b => ¬(a.table = b.table ∧ a.key = b.key)
  bounded : records.length ≤ bound

/-- A key has one record at most. -/
theorem filter_isAt {records : List Record}
    (unique : records.Pairwise fun a b => ¬(a.table = b.table ∧ a.key = b.key)) (t : Table)
    (key : String) :
    records.filter (·.isAt t key) = (records.find? (·.isAt t key)).toList := by
  induction records with
  | nil => rfl
  | cons x rest ih =>
    obtain ⟨first, unique⟩ := List.pairwise_cons.1 unique
    by_cases own : x.isAt t key = true
    · have none : rest.filter (·.isAt t key) = [] := by
        refine List.filter_eq_nil_iff.2 fun y hy other => first y hy ?_
        simp only [Record.isAt, Bool.and_eq_true, decide_eq_true_eq] at own other
        exact ⟨own.1.trans other.1.symm, own.2.trans other.2.symm⟩
      rw [List.filter_cons_of_pos own, List.find?_cons_of_pos own, none]
      rfl
    · rw [List.filter_cons_of_neg own, List.find?_cons_of_neg own]
      exact ih unique

namespace Recency

def empty (config : CacheConfig) : Recency :=
  ⟨1000 * config.defaultTtl.toNat, max 1 config.maxEntries.toNat, [], .nil, Nat.zero_le _⟩

def find? (r : Recency) (t : Table) (key : String) : Option Record := r.records.find? (·.isAt t key)

def keepOnly (r : Recency) (p : Record → Bool) : Recency :=
  { r with
    records := r.records.filter p
    unique := r.unique.filter p
    bounded := Nat.le_trans (List.length_filter_le p _) r.bounded }

/-- The record for a key, if there is one, moves to the front. -/
def touch (r : Recency) (t : Table) (key : String) : Recency :=
  { r with
    records := r.records.filter (·.isAt t key) ++ r.records.filter fun x => !x.isAt t key
    unique := ((List.filter_append_perm _ _).pairwise_iff fun differ same =>
      differ ⟨same.1.symm, same.2.symm⟩).2 r.unique
    bounded := Nat.le_trans (Nat.le_of_eq (List.filter_append_perm _ _).length_eq) r.bounded }

/-- The value for a key unless it has expired; a record that is found moves to the front or goes. -/
def get (r : Recency) (t : Table) (key : String) (now : Nat) :
    Option ((t : Table) × t.Value) × Recency :=
  match r.find? t key with
  | none => (none, r)
  | some x =>
    if now < x.expiresAt then (some x.content, r.touch t key)
    else (none, r.keepOnly fun x => !x.isAt t key)

/-- Drops the expired records among those that satisfy `p`; returns how many there were. -/
def pruneWhere (r : Recency) (p : Record → Bool) (now : Nat) : Nat × Recency :=
  (r.records.countP fun x => p x && x.isExpired now,
    r.keepOnly fun x => !(p x && x.isExpired now))

/-- A list that exceeds the bound loses what has expired and then its end. -/
def trim (bound now : Nat) (records : List Record) : List Record :=
  if records.length ≤ bound then records else (records.filter (!·.isExpired now)).take bound

theorem trim_sublist (bound now : Nat) (records : List Record) :
    (trim bound now records).Sublist records := by
  unfold trim
  split
  · exact List.Sublist.refl _
  · exact (List.take_sublist _ _).trans List.filter_sublist

theorem length_trim_le (bound now : Nat) (records : List Record) :
    (trim bound now records).length ≤ bound := by
  unfold trim
  split
  · assumption
  · exact List.length_take_le _ _

/-- The list with a new record in front, without an older one for its key. -/
def push (r : Recency) (x : Record) (now : Nat) : Recency :=
  { r with
    records := trim r.bound now (x :: r.records.filter fun y => !y.isAt x.table x.key)
    unique := by
      refine .sublist (trim_sublist _ _ _) (List.pairwise_cons.2 ⟨fun y hy same => ?_,
        r.unique.filter _⟩)
      have other := (List.mem_filter.1 hy).2
      simp [Record.isAt, same.1, same.2] at other
    bounded := length_trim_le _ _ _ }

end Recency

/-- What may be done with a cache. -/
inductive Operation where
  | get (t : Table) (key : String)
  | peek (t : Table) (key : String)
  | entry (t : Table) (key : String)
  /-- Stores a value for `ttl` milliseconds or for the default time. -/
  | store (t : Table) (key : String) (value : t.Value) (ttl : Option Nat)
  | remove (t : Table) (key : String)
  | clear
  | clearTable (t : Table)
  | prune
  | pruneTable (t : Table)
  | size
  | sizeOf (t : Table)

/-- What comes back from an operation. -/
inductive Answer where
  | value (found : Option ((t : Table) × t.Value))
  | record (found : Option Record)
  | count (n : Nat)
  | done

def Recency.serve (r : Recency) (now : Nat) : Operation → Answer × Recency
  | .get t key => (.value (r.get t key now).1, (r.get t key now).2)
  | .peek t key => (.value (((r.find? t key).filter (!·.isExpired now)).map (·.content)), r)
  | .entry t key => (.record (r.find? t key), r)
  | .store t key value ttl =>
    (.done, r.push ⟨t, key, value, now, min (now + ttl.getD r.ttl) (UInt64.size - 1)⟩ now)
  | .remove t key =>
    (.value ((r.find? t key).map (·.content)), r.keepOnly fun x => !x.isAt t key)
  | .clear => (.done, r.keepOnly fun _ => false)
  | .clearTable t => (.done, r.keepOnly fun x => x.table ≠ t)
  | .prune => (.count (r.pruneWhere (fun _ => true) now).1, (r.pruneWhere (fun _ => true) now).2)
  | .pruneTable t =>
    (.count (r.pruneWhere (·.table = t) now).1, (r.pruneWhere (·.table = t) now).2)
  | .size => (.count r.records.length, r)
  | .sizeOf t => (.count (r.records.countP (·.table = t)), r)

def serve (c : Cache) (now : UInt64) : Operation → Answer × Cache
  | .get t key => (.value ((c.get t key now).1.map fun value => ⟨t, value⟩), (c.get t key now).2)
  | .peek t key => (.value ((c.peek? t key now).map fun value => ⟨t, value⟩), c)
  | .entry t key => (.record ((c.entry? t key).map fun e => Binding.record ⟨t, key, e⟩), c)
  | .store t key value ttl => (.done, c.store t key value now ttl)
  | .remove t key => (.value ((c.remove t key).1.map fun value => ⟨t, value⟩), (c.remove t key).2)
  | .clear => (.done, c.clear)
  | .clearTable t => (.done, c.clearTable t)
  | .prune => (.count (c.prune now).1, (c.prune now).2)
  | .pruneTable t => (.count (c.pruneTable t now).1, (c.pruneTable t now).2)
  | .size => (.count c.size, c)
  | .sizeOf t => (.count (c.sizeOf t), c)

/-- A way to put the bindings of a cache into another order. -/
structure Arrangement where
  arrange : List Binding → List Binding
  perm : ∀ bindings, (arrange bindings).Perm bindings

def rearrange (c : Cache) (a : Arrangement) : Cache :=
  { c with
    bindings := a.arrange c.bindings
    valid := by
      refine ⟨((a.perm _).pairwise_iff ?_).2 c.valid.keys,
        ((a.perm _).pairwise_iff fun differ => differ.symm).2 c.valid.accesses,
        fun b hb => c.valid.taken b ((a.perm _).subset hb)⟩
      exact fun differ same => differ ⟨same.1.symm, same.2.symm⟩ }

/-- An operation at a time, and the order in which it happens to find the bindings. -/
structure Turn where
  now : UInt64
  arrangement : Arrangement
  operation : Operation

def serveAll (c : Cache) : List Turn → List Answer × Cache
  | [] => ([], c)
  | turn :: rest =>
    let (answer, c) := (c.rearrange turn.arrangement).serve turn.now turn.operation
    let (answers, c) := c.serveAll rest
    (answer :: answers, c)

def Recency.serveAll (r : Recency) : List Turn → List Answer × Recency
  | [] => ([], r)
  | turn :: rest =>
    let (answer, r) := r.serve turn.now.toNat turn.operation
    let (answers, r) := r.serveAll rest
    (answer :: answers, r)

/-- The default time and the bound of a cache have stayed as they were. -/
structure SameSettings (c c' : Cache) : Prop where
  defaultTtl : c'.defaultTtl = c.defaultTtl
  maxEntries : c'.maxEntries = c.maxEntries

theorem SameSettings.refl (c : Cache) : c.SameSettings c := ⟨rfl, rfl⟩

theorem SameSettings.trans {c c' c'' : Cache} (h : c.SameSettings c')
    (later : c'.SameSettings c'') :
    c.SameSettings c'' :=
  ⟨later.defaultTtl.trans h.defaultTtl, later.maxEntries.trans h.maxEntries⟩

/-- The bindings of a cache, the one used last first. -/
def byRecency (c : Cache) : List Binding :=
  c.bindings.mergeSort fun a b => b.entry.lastAccess ≤ a.entry.lastAccess

section
variable {c : Cache} {t : Table} {key : String} {now : UInt64}

theorem byRecency_perm (c : Cache) : c.byRecency.Perm c.bindings := List.mergeSort_perm _ _

theorem byRecency_sorted (c : Cache) :
    c.byRecency.Pairwise fun a b => b.entry.lastAccess < a.entry.lastAccess := by
  have sorted : c.byRecency.Pairwise fun a b => b.entry.lastAccess ≤ a.entry.lastAccess := by
    refine (List.pairwise_mergeSort (fun a b c ab bc => ?_) (fun a b => ?_) c.bindings).imp
      of_decide_eq_true
    · exact decide_eq_true (Nat.le_trans (of_decide_eq_true bc) (of_decide_eq_true ab))
    · simpa using Nat.le_total _ _
  have differ := ((byRecency_perm c).pairwise_iff fun differ => differ.symm).2 c.valid.accesses
  exact sorted.imp₂ (fun _ _ le ne => Nat.lt_of_le_of_ne le ne.symm) differ

/-- No two accesses have one number, so there is only one order. -/
theorem byRecency_eq {l : List Binding} (perm : l.Perm c.bindings)
    (sorted : l.Pairwise fun a b => b.entry.lastAccess < a.entry.lastAccess) : c.byRecency = l :=
  ((byRecency_perm c).trans perm.symm).eq_of_pairwise
    (fun _ _ _ _ older newer => absurd older (Nat.lt_asymm newer))
    (byRecency_sorted c) sorted

theorem length_byRecency (c : Cache) : c.byRecency.length = c.size := (byRecency_perm c).length_eq

theorem byRecency_rearrange (a : Arrangement) : (c.rearrange a).byRecency = c.byRecency :=
  byRecency_eq ((byRecency_perm c).trans (a.perm _).symm) (byRecency_sorted c)

theorem byRecency_keepOnly (p : Binding → Bool) :
    (c.keepOnly p).byRecency = c.byRecency.filter p :=
  byRecency_eq ((byRecency_perm c).filter p) ((byRecency_sorted c).filter p)

theorem byRecency_put {value : t.Value} {cachedAt expiresAt : UInt64} :
    (c.put t key value cachedAt expiresAt).byRecency =
      ⟨t, key, ⟨value, cachedAt, expiresAt, c.counter⟩⟩ ::
        c.byRecency.filter fun b => !b.isAt t key := by
  refine byRecency_eq ?_ (List.pairwise_cons.2 ⟨fun b hb => ?_, (byRecency_sorted c).filter _⟩)
  · exact (((byRecency_perm c).filter _).cons _).trans (List.perm_append_singleton _ _).symm
  · exact c.valid.taken b ((byRecency_perm c).subset (List.mem_filter.1 hb).1)

theorem oldest?_eq_some {n : Nat} : c.oldest? t = some n ↔
    (∃ b ∈ c.bindings, b.table = t ∧ b.entry.lastAccess = n) ∧
      ∀ b ∈ c.bindings, b.table = t → n ≤ b.entry.lastAccess := by
  have members {m : Nat} : m ∈ (c.bindings.filter (·.table = t)).map (·.entry.lastAccess) ↔
      ∃ b ∈ c.bindings, b.table = t ∧ b.entry.lastAccess = m := by
    simp only [List.mem_map, List.mem_filter, decide_eq_true_eq, and_assoc]
  unfold oldest?
  rw [List.min?_eq_some_iff, members]
  constructor
  · rintro ⟨own, least⟩
    exact ⟨own, fun b hb table => least _ (members.2 ⟨b, hb, table, rfl⟩)⟩
  · rintro ⟨own, least⟩
    refine ⟨own, fun m hm => ?_⟩
    obtain ⟨b, hb, table, rfl⟩ := members.1 hm
    exact least b hb table

/-- The least of the tables' least numbers is the least of all. -/
theorem min?_oldest (c : Cache) :
    (Table.all.filterMap c.oldest?).min? = (c.bindings.map (·.entry.lastAccess)).min? := by
  have every (t : Table) : t ∈ Table.all := by cases t <;> decide
  ext n
  simp only [List.min?_eq_some_iff, List.mem_map, List.mem_filterMap, forall_exists_index, and_imp,
    forall_apply_eq_imp_iff₂]
  constructor
  · rintro ⟨⟨t, -, found⟩, least⟩
    obtain ⟨⟨b, hb, -, own⟩, -⟩ := oldest?_eq_some.1 found
    refine ⟨⟨b, hb, own⟩, fun x hx => ?_⟩
    cases first : c.oldest? x.table with
    | some m =>
      exact Nat.le_trans (least m x.table (every _) first) ((oldest?_eq_some.1 first).2 x hx rfl)
    | none =>
      have none := List.map_eq_nil_iff.1 (List.min?_eq_none_iff.1 first)
      have : x ∈ c.bindings.filter (·.table = x.table) := by simpa using hx
      rw [none] at this
      cases this
  · rintro ⟨⟨b, hb, rfl⟩, least⟩
    refine ⟨⟨b.table, every _, oldest?_eq_some.2 ⟨⟨b, hb, rfl, rfl⟩, fun x hx _ => least x hx⟩⟩, ?_⟩
    intro m t _ found
    obtain ⟨⟨x, hx, -, rfl⟩, -⟩ := oldest?_eq_some.1 found
    exact least x hx

/-- The binding with the least number is the one at the end. -/
theorem byRecency_evictOldest : c.evictOldest.byRecency = c.byRecency.dropLast := by
  have sorted := byRecency_sorted c
  have members {b : Binding} : b ∈ c.byRecency ↔ b ∈ c.bindings := (byRecency_perm c).mem_iff
  unfold evictOldest
  rw [min?_oldest]
  rcases List.eq_nil_or_concat c.byRecency with none | ⟨newer, oldest, split⟩
  · have empty : c.bindings = [] := (none ▸ byRecency_perm c).nil_eq.symm
    simp [empty, none]
  · rw [List.concat_eq_append] at split
    rw [split] at sorted members
    have later : ∀ b ∈ newer, oldest.entry.lastAccess < b.entry.lastAccess :=
      fun b hb => (List.pairwise_append.1 sorted).2.2 b hb oldest (List.mem_singleton_self _)
    have least : (c.bindings.map (·.entry.lastAccess)).min? = some oldest.entry.lastAccess := by
      refine List.min?_eq_some_iff.2 ⟨List.mem_map_of_mem (members.1 (by simp)), fun n hn => ?_⟩
      obtain ⟨b, hb, rfl⟩ := List.mem_map.1 hn
      rcases List.mem_append.1 (members.2 hb) with hb | hb
      · exact Nat.le_of_lt (later b hb)
      · exact Nat.le_of_eq (by rw [List.mem_singleton.1 hb])
    rw [least]
    change (c.keepOnly fun b => b.entry.lastAccess ≠ oldest.entry.lastAccess).byRecency = _
    have keep : newer.filter (fun b => b.entry.lastAccess ≠ oldest.entry.lastAccess) = newer :=
      List.filter_eq_self.2 fun b hb => by simpa using Nat.ne_of_gt (later b hb)
    rw [byRecency_keepOnly, split, List.filter_append, keep]
    simp

theorem byRecency_evict (n : Nat) :
    (Nat.repeat evictOldest n c).byRecency = c.byRecency.take (c.size - n) := by
  induction n with
  | zero => exact (List.take_of_length_le (Nat.le_of_eq (length_byRecency c))).symm
  | succ n ih =>
    change (evictOldest (Nat.repeat evictOldest n c)).byRecency = _
    rw [byRecency_evictOldest, ih, List.dropLast_eq_take, List.take_take, List.length_take,
      length_byRecency]
    congr 1
    omega

theorem evict_settings (c : Cache) (n : Nat) : c.SameSettings (Nat.repeat evictOldest n c) := by
  induction n with
  | zero => exact .refl c
  | succ n ih =>
    have step (c : Cache) : c.SameSettings c.evictOldest := by
      unfold evictOldest
      split <;> exact ⟨rfl, rfl⟩
    exact ih.trans (step _)

theorem enforceBound_settings (c : Cache) (now : UInt64) : c.SameSettings (c.enforceBound now) := by
  unfold enforceBound
  split
  · exact .refl c
  · have pruned : c.SameSettings (c.prune now).2 := ⟨rfl, rfl⟩
    exact pruned.trans (evict_settings _ _)

theorem get_settings : c.SameSettings (c.get t key now).2 := by
  unfold get
  split
  · exact ⟨rfl, rfl⟩
  · split <;> exact ⟨rfl, rfl⟩

theorem store_settings {value : t.Value} {ttl : Option Nat} :
    c.SameSettings (c.store t key value now ttl) :=
  have put : c.SameSettings (c.put t key value now
      (Clock.after now (ttl.getD (1000 * c.defaultTtl.toNat)))) := ⟨rfl, rfl⟩
  put.trans (enforceBound_settings _ now)

theorem byRecency_prune : (c.prune now).2.byRecency =
    c.byRecency.filter fun b => !b.entry.isExpired now := byRecency_keepOnly _

/-- Expired bindings go first and then those at the end. -/
theorem byRecency_enforceBound : (c.enforceBound now).byRecency =
    if c.size ≤ c.maxEntries.toNat then c.byRecency
    else (c.byRecency.filter fun b => !b.entry.isExpired now).take c.maxEntries.toNat := by
  unfold enforceBound
  split
  · rfl
  · have kept : (c.prune now).2.size =
        (c.byRecency.filter fun b => !b.entry.isExpired now).length := by
      rw [← length_byRecency, byRecency_prune]
    have bound : (c.prune now).2.maxEntries = c.maxEntries := rfl
    rw [byRecency_evict, byRecency_prune, kept, bound]
    rcases Nat.le_total
      (c.byRecency.filter fun b => !b.entry.isExpired now).length c.maxEntries.toNat with few | many
    · rw [List.take_of_length_le few, List.take_of_length_le (by omega)]
    · congr 1
      omega

/-- Each key has one record in its table. -/
theorem eq_of_place {a b : Binding} (ha : a ∈ c.bindings) (hb : b ∈ c.bindings)
    (table : a.table = b.table) (key : a.key = b.key) : a = b := by
  by_contra differ
  have symm : Std.Symm fun a b : Binding => ¬(a.table = b.table ∧ a.key = b.key) :=
    ⟨fun _ _ differ same => differ ⟨same.1.symm, same.2.symm⟩⟩
  exact c.valid.keys.forall ha hb differ ⟨table, key⟩

/-- What is found for a key is the one record for it. -/
theorem entry?_eq_some {e : Entry t} :
    c.entry? t key = some e ↔ (⟨t, key, e⟩ : Binding) ∈ c.bindings := by
  refine ⟨mem_of_found, fun member => ?_⟩
  cases found : c.entry? t key with
  | none =>
    have := List.findSome?_eq_none_iff.1 found _ member
    simp [Binding.at?] at this
  | some e' =>
    cases eq_of_place (mem_of_found found) member rfl rfl
    rfl

end

/-- What the users of a cache see is the list. -/
structure Shows (c : Cache) (r : Recency) : Prop where
  ttl : r.ttl = 1000 * c.defaultTtl.toNat
  bound : r.bound = c.maxEntries.toNat
  records : r.records = c.byRecency.map Binding.record

namespace Shows
variable {c : Cache} {r : Recency} {t : Table} {key : String} {now : UInt64}

theorem empty (settings : CacheConfig) : (Cache.empty settings).Shows (.empty settings) := by
  refine ⟨rfl, ?_, ?_⟩
  · change max 1 settings.maxEntries.toNat = (max settings.maxEntries 1).toNat
    by_cases few : settings.maxEntries ≤ 1
    · rw [show max settings.maxEntries 1 = 1 from if_pos few]
      exact Nat.max_eq_left few
    · rw [show max settings.maxEntries 1 = settings.maxEntries from if_neg few]
      exact Nat.max_eq_right (Nat.le_of_not_le few)
  · rw [byRecency_eq (c := Cache.empty settings) (l := []) (.refl _) .nil]
    rfl

theorem rearrange (h : c.Shows r) (a : Arrangement) : (c.rearrange a).Shows r :=
  ⟨h.ttl, h.bound, h.records.trans (by rw [byRecency_rearrange])⟩

theorem length (h : c.Shows r) : r.records.length = c.size := by
  rw [h.records, List.length_map, length_byRecency]

theorem countP {p : Binding → Bool} {q : Record → Bool} (h : c.Shows r)
    (same : ∀ b, q b.record = p b) : r.records.countP q = c.bindings.countP p := by
  rw [h.records, List.countP_map, show q ∘ Binding.record = p from funext same,
    (byRecency_perm c).countP_eq]

theorem keepOnly {p : Binding → Bool} {q : Record → Bool} (h : c.Shows r)
    (same : ∀ b, q b.record = p b) : (c.keepOnly p).Shows (r.keepOnly q) := by
  refine ⟨h.ttl, h.bound, ?_⟩
  change r.records.filter q = _
  rw [h.records, List.filter_map, show q ∘ Binding.record = p from funext same, byRecency_keepOnly]

theorem find? (h : c.Shows r) (t : Table) (key : String) :
    r.find? t key = (c.entry? t key).map fun e => Binding.record ⟨t, key, e⟩ := by
  have first : r.find? t key = (c.byRecency.find? (·.isAt t key)).map Binding.record := by
    unfold Recency.find?
    rw [h.records, List.find?_map]
    rfl
  have own {b : Binding} (hb : b ∈ c.byRecency) (at_ : b.isAt t key = true) :
      ∃ e, b = ⟨t, key, e⟩ ∧ c.entry? t key = some e := by
    obtain ⟨table, name, e⟩ := b
    obtain ⟨rfl, rfl⟩ : table = t ∧ name = key := by simpa [Binding.isAt] using at_
    exact ⟨e, rfl, entry?_eq_some.2 ((byRecency_perm c).mem_iff.1 hb)⟩
  rw [first]
  cases found : c.byRecency.find? (·.isAt t key) with
  | some b =>
    obtain ⟨e, rfl, bound⟩ := own (List.mem_of_find?_eq_some found) (List.find?_some found)
    rw [bound]
    rfl
  | none =>
    cases bound : c.entry? t key with
    | none => rfl
    | some e =>
      have member := (byRecency_perm c).mem_iff.2 (entry?_eq_some.1 bound)
      have absent := List.find?_eq_none.1 found _ member
      simp [Binding.isAt] at absent

theorem touch {e : Entry t} (h : c.Shows r) (found : c.entry? t key = some e) :
    (c.put t key e.value e.cachedAt e.expiresAt).Shows (r.touch t key) := by
  refine ⟨h.ttl, h.bound, ?_⟩
  change r.records.filter (·.isAt t key) ++ r.records.filter (fun x => !x.isAt t key) = _
  rw [filter_isAt r.unique]
  change (r.find? t key).toList ++ _ = _
  rw [h.find?, found, byRecency_put, h.records, List.filter_map]
  rfl

/-- Both lists drop what has expired, and then each drops its end. -/
theorem store {value : t.Value} {ttl : Option Nat} (h : c.Shows r) :
    (c.store t key value now ttl).Shows (r.push
      ⟨t, key, value, now.toNat, min (now.toNat + ttl.getD r.ttl) (UInt64.size - 1)⟩
        now.toNat) := by
  let c' := c.put t key value now (Clock.after now (ttl.getD (1000 * c.defaultTtl.toNat)))
  have put : c'.byRecency.map Binding.record =
      ⟨t, key, value, now.toNat, min (now.toNat + ttl.getD r.ttl) (UInt64.size - 1)⟩ ::
        r.records.filter fun x => !x.isAt t key := by
    rw [byRecency_put, h.records, List.filter_map, h.ttl, ← Clock.toNat_after]
    rfl
  obtain ⟨sameTtl, sameBound⟩ := enforceBound_settings c' now
  refine ⟨h.ttl.trans (congrArg (1000 * UInt64.toNat ·) sameTtl.symm),
    h.bound.trans (congrArg UInt64.toNat sameBound.symm), ?_⟩
  change Recency.trim r.bound now.toNat (_ :: r.records.filter fun x => !x.isAt t key) =
    (c'.enforceBound now).byRecency.map Binding.record
  rw [← put, byRecency_enforceBound, Recency.trim, List.length_map, length_byRecency, h.bound]
  change (if c'.size ≤ c'.maxEntries.toNat then _ else _) = _
  split
  · rfl
  · rw [List.map_take, List.filter_map]
    rfl

theorem get (h : c.Shows r) (t : Table) (key : String) (now : UInt64) :
    (c.get t key now).1.map (fun value => ⟨t, value⟩) = (r.get t key now.toNat).1 ∧
      (c.get t key now).2.Shows (r.get t key now.toNat).2 := by
  unfold Cache.get Recency.get
  rw [h.find?]
  cases found : c.entry? t key with
  | none =>
    exact ⟨rfl, h.ttl, h.bound, h.records⟩
  | some e =>
    dsimp only [Option.map_some]
    by_cases expired : e.isExpired now = true
    · have late : ¬ now.toNat < (Binding.record ⟨t, key, e⟩).expiresAt :=
        Nat.not_lt.2 (of_decide_eq_true expired)
      rw [if_pos expired, if_neg late]
      have kept := h.keepOnly (p := fun b => !b.isAt t key) (q := fun x => !x.isAt t key)
        fun _ => rfl
      exact ⟨rfl, kept.ttl, kept.bound, kept.records⟩
    · have fresh : now.toNat < (Binding.record ⟨t, key, e⟩).expiresAt :=
        Nat.lt_of_not_le fun late => expired (decide_eq_true late)
      rw [if_neg expired, if_pos fresh]
      have moved := h.touch found
      exact ⟨rfl, moved.ttl, moved.bound, moved.records⟩

theorem peek (h : c.Shows r) (t : Table) (key : String) (now : UInt64) :
    (c.peek? t key now).map (fun value => (⟨t, value⟩ : (t : Table) × t.Value)) =
      ((r.find? t key).filter (!·.isExpired now.toNat)).map (·.content) := by
  rw [h.find?, peek?]
  cases c.entry? t key with
  | none => rfl
  | some e =>
    dsimp only [Option.map_some]
    rw [Option.filter_some, Option.filter_some, Record.isExpired_record]
    split <;> rfl

theorem pruneWhere {p : Binding → Bool} {q : Record → Bool} (h : c.Shows r)
    (same : ∀ b, q b.record = p b) (now : UInt64) :
    (c.pruneWhere p now).1 = (r.pruneWhere q now.toNat).1 ∧
      (c.pruneWhere p now).2.Shows (r.pruneWhere q now.toNat).2 := by
  have expired (b : Binding) :
      (q b.record && b.record.isExpired now.toNat) = (p b && b.entry.isExpired now) := by
    rw [same, Record.isExpired_record]
  have kept := h.keepOnly (p := fun b => !(p b && b.entry.isExpired now))
    (q := fun x => !(q x && x.isExpired now.toNat)) fun b => congrArg (!·) (expired b)
  refine ⟨?_, kept.ttl, kept.bound, kept.records⟩
  change c.bindings.length - (c.bindings.filter _).length = r.records.countP _
  rw [h.countP expired, ← List.countP_eq_length_filter,
    List.length_eq_countP_add_countP fun b : Binding => p b && b.entry.isExpired now]
  simp

end Shows

theorem Recency.serveAll_bound (r : Recency) (turns : List Turn) :
    (r.serveAll turns).2.bound = r.bound := by
  have step (r : Recency) (now : Nat) (op : Operation) : (r.serve now op).2.bound = r.bound := by
    cases op with
    | get t key =>
      unfold serve get
      dsimp only
      split
      · rfl
      · split <;> rfl
    | _ => rfl
  induction turns generalizing r with
  | nil => rfl
  | cons turn rest ih => exact (ih _).trans (step r _ _)

/-- In an operation both do the same. -/
theorem serve_shows {c : Cache} {r : Recency} (h : c.Shows r) (now : UInt64) (op : Operation) :
    (c.serve now op).1 = (r.serve now.toNat op).1 ∧
      (c.serve now op).2.Shows (r.serve now.toNat op).2 := by
  cases op with
  | get t key => exact (h.get t key now).imp_left (congrArg Answer.value)
  | peek t key => exact ⟨congrArg Answer.value (h.peek t key now), h⟩
  | entry t key => exact ⟨congrArg Answer.record (h.find? t key).symm, h⟩
  | store t key value ttl => exact ⟨rfl, h.store⟩
  | remove t key =>
    refine ⟨congrArg Answer.value ?_, h.keepOnly fun _ => rfl⟩
    rw [h.find?, Option.map_map, remove, Option.map_map]
    rfl
  | clear => exact ⟨rfl, h.keepOnly fun _ => rfl⟩
  | clearTable t => exact ⟨rfl, h.keepOnly fun _ => rfl⟩
  | prune =>
    have pruned := h.pruneWhere (p := fun _ => true) (q := fun _ => true) (fun _ => rfl) now
    exact pruned.imp_left (congrArg Answer.count)
  | pruneTable t =>
    have pruned := h.pruneWhere (p := (·.table = t)) (q := (·.table = t)) (fun _ => rfl) now
    exact pruned.imp_left (congrArg Answer.count)
  | size => exact ⟨congrArg Answer.count h.length.symm, h⟩
  | sizeOf t =>
    refine ⟨congrArg Answer.count ?_, h⟩
    rw [h.countP fun _ => rfl, List.countP_eq_length_filter]
    rfl

theorem serveAll_shows {c : Cache} {r : Recency} (h : c.Shows r) (turns : List Turn) :
    (c.serveAll turns).1 = (r.serveAll turns).1 ∧
      (c.serveAll turns).2.Shows (r.serveAll turns).2 := by
  induction turns generalizing c r with
  | nil => exact ⟨rfl, h⟩
  | cons turn rest ih =>
    obtain ⟨answer, shows⟩ := serve_shows (h.rearrange turn.arrangement) turn.now turn.operation
    obtain ⟨answers, shows⟩ := ih shows
    exact ⟨congr (congrArg List.cons answer) answers, shows⟩

/-- Over any sequence of operations, at any times and with the bindings in any order, a cache
answers as the list does, keeps the same records in the same order of use, and stays within its
bound. -/
theorem serveAll_eq_recency (settings : CacheConfig) (turns : List Turn) :
    let cache := (empty settings).serveAll turns
    let listed := (Recency.empty settings).serveAll turns
    cache.1 = listed.1 ∧ cache.2.byRecency.map Binding.record = listed.2.records ∧
      (∀ t key, (Cache.entry? cache.2 t key).map (fun e => Binding.record ⟨t, key, e⟩)
        = listed.2.find? t key) ∧
      cache.2.size = listed.2.records.length ∧ cache.2.size ≤ max 1 settings.maxEntries.toNat := by
  intro cache listed
  obtain ⟨answers, shows⟩ := serveAll_shows (.empty settings) turns
  have bound : listed.2.bound = max 1 settings.maxEntries.toNat := Recency.serveAll_bound _ turns
  exact ⟨answers, shows.records.symm, fun t key => (shows.find? t key).symm, shows.length.symm,
    shows.length ▸ bound ▸ listed.2.bounded⟩

end Cache

end LightClient
