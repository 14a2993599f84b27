import LightClient.Proofs.Soundness
import LightClient.Proofs.Stores

/-!
# Verified reports are kept

What is stored is the record used last, so a cache that may hold one entry finds it again until it
expires, whatever had to go for it. A verified report is stored after all that its verification has
stored on the way. So until its time is over it is what every caller gets for the account, in any
spelling, and no backend is asked for it.
-/
namespace LightClient

namespace Cache
variable {c : Cache} {t : Table} {key : String} {value : t.Value} {now deadline : UInt64}

theorem entry?_put {cachedAt expiresAt : UInt64} :
    Cache.entry? (c.put t key value cachedAt expiresAt) t key =
      some ⟨value, cachedAt, expiresAt, c.counter⟩ :=
  entry?_eq_some.2 (List.mem_append_right _ (List.mem_singleton_self _))

/-- An entry that is put into a cache is not what makes room for it, unless it has expired. -/
theorem entry?_enforceBound_put {cachedAt expiresAt : UInt64} (room : 1 ≤ c.maxEntries.toNat)
    (lasts : now < expiresAt) :
    Cache.entry? ((c.put t key value cachedAt expiresAt).enforceBound now) t key =
      some ⟨value, cachedAt, expiresAt, c.counter⟩ := by
  rw [entry?_eq_some, ← (byRecency_perm _).mem_iff, byRecency_enforceBound]
  split
  · rw [byRecency_put]
    exact List.mem_cons_self
  · -- It is in front, where neither the loss of what has expired nor that of the end gets to.
    obtain ⟨more, bound⟩ := Nat.exists_eq_add_of_le' room
    have same : (c.put t key value cachedAt expiresAt).maxEntries.toNat = more + 1 := bound
    rw [byRecency_put, List.filter_cons_of_pos (by simpa [Entry.isExpired] using lasts), same,
      List.take_succ_cons]
    exact List.mem_cons_self

/-- A value is found for a key until a time. -/
def FindsUntil (c : Cache) (t : Table) (key : String) (value : t.Value) (deadline : UInt64) :
    Prop :=
  ∃ e, c.entry? t key = some e ∧ e.value = value ∧ e.expiresAt = deadline

theorem findsUntil_store (room : 1 ≤ c.maxEntries)
    (lasts : now < Clock.after now (1000 * c.defaultTtl.toNat)) :
    (c.store t key value now none).FindsUntil t key value
      (Clock.after now (1000 * c.defaultTtl.toNat)) :=
  ⟨_, entry?_enforceBound_put room lasts, rfl, rfl⟩

theorem FindsUntil.peek? (finds : c.FindsUntil t key value deadline) (early : now < deadline) :
    c.peek? t key now = some value := by
  obtain ⟨e, found, rfl, rfl⟩ := finds
  have fresh : ¬ e.expiresAt ≤ now := UInt64.not_le.2 early
  rw [peek?, found, Option.filter_some, if_pos (by simpa [Entry.isExpired] using fresh)]
  rfl

/-- Finding it is one hit, and it is found until the same time after that. -/
theorem FindsUntil.get (finds : c.FindsUntil t key value deadline) (early : now < deadline) :
    (c.get t key now).2.FindsUntil t key value deadline ∧
      (c.get t key now).2.metrics = { c.metrics with hits := c.metrics.hits + 1 } := by
  obtain ⟨e, found, rfl, rfl⟩ := finds
  have fresh : ¬ e.isExpired now = true := by
    simpa [Entry.isExpired] using UInt64.not_le.2 early
  unfold Cache.get
  rw [found]
  dsimp only
  rw [if_neg fresh]
  exact ⟨⟨_, entry?_put, rfl, rfl⟩, rfl⟩

end Cache

namespace Verifier
variable {v : Verifier} {backend : Backend} {now : UInt64}

/-- A verified report is the last to be stored. -/
theorem reportLayers_stores {account : Url} {s : State} {r : Report}
    (returned : (reportLayers v backend now account s).1 = .ok r) (verified : r.verified = true) :
    ∃ s' : State, s.cache.SameSettings s'.cache ∧ (reportLayers v backend now account s).2 =
      ⟨s'.cache.store .reports account.text r now none, s'.journal⟩ := by
  refine ⟨(v.runLayers backend now account s).2, (runLayers_stores account s).1, ?_⟩
  unfold reportLayers at returned ⊢
  rw [State.bind_apply] at returned ⊢
  cases ran : (v.runLayers backend now account s).1 with
  | error f =>
    rw [ran] at returned
    cases returned
  | ok o =>
    rw [ran] at returned
    dsimp only at returned ⊢
    split at returned
    · rename_i full
      rw [if_pos full]
      obtain rfl : report now account o = r := Except.ok.inj returned
      rfl
    · rename_i partial_
      obtain rfl : report now account o = r := Except.ok.inj returned
      exact absurd verified partial_

end Verifier

namespace Session
open Verifier

variable {s : Session} {u : Url} {r : Report} {deadline : UInt64}

/-- A verification of an account by a caller at a time. -/
structure Call where
  time : UInt64
  caller : Caller
  account : String

/-- What calls get, one after the other with nothing in between, and what the session is then. -/
def verifyAll (s : Session) : List Call → List (Except Failure Report) × Session
  | [] => ([], s)
  | call :: rest =>
    let (result, s) := { s with now := call.time }.verify call.caller call.account
    let (results, s) := s.verifyAll rest
    (result :: results, s)

theorem verifyAll_cons (call : Call) (rest : List Call) :
    s.verifyAll (call :: rest) =
      let first := { s with now := call.time }.verify call.caller call.account
      (first.1 :: (first.2.verifyAll rest).1, (first.2.verifyAll rest).2) := rfl

/-- A call finds the report and counts as one hit. -/
theorem verify_of_finds (finds : s.state.cache.FindsUntil .reports u.text r deadline)
    (caller : Caller) {account : String} (parsed : Url.parse account = .ok u)
    (early : s.now < deadline) :
    (s.verify caller account).1 = .ok r ∧
      (s.verify caller account).2.state.journal = s.state.journal ∧
      (s.verify caller account).2.state.cache.FindsUntil .reports u.text r deadline ∧
      (s.verify caller account).2.state.cache.metrics =
        { s.state.cache.metrics with hits := s.state.cache.metrics.hits + 1 } := by
  obtain ⟨returned, silent⟩ := verify_of_kept caller parsed (finds.peek? early)
  have looked : (s.verify caller account).2.state.cache =
      (s.state.cache.get .reports u.text s.now).2 := by
    rw [verify_state, verifyAccount_eq parsed, lookup_bind_apply, finds.peek? early]
    rfl
  rw [looked]
  exact ⟨returned, silent, finds.get early⟩

/-- A verified report that had to be computed is found until its time is over. -/
theorem finds_of_computed {caller : Caller} {account : String} (room : 1 ≤ s.state.cache.maxEntries)
    (lasts : 1 ≤ 1000 * s.state.cache.defaultTtl.toNat)
    (fits : s.now.toNat + 1000 * s.state.cache.defaultTtl.toNat < UInt64.size)
    (parsed : Url.parse account = .ok u)
    (computed : s.state.cache.peek? .reports u.text s.now = none)
    (returned : (s.verify caller account).1 = .ok r) (verified : r.verified = true) :
    (s.verify caller account).2.state.cache.FindsUntil .reports u.text r
      (Clock.after s.now (1000 * s.state.cache.defaultTtl.toNat)) := by
  rw [verify_result, verifyAccount_eq parsed, lookup_bind_apply, computed] at returned
  obtain ⟨s', same, stored⟩ := reportLayers_stores returned verified
  have settings : s.state.cache.SameSettings s'.cache := Cache.get_settings.trans same
  rw [verify_state, verifyAccount_eq parsed, lookup_bind_apply, computed]
  dsimp only
  rw [stored, ← settings.defaultTtl]
  rw [← settings.defaultTtl] at lasts fits
  rw [← settings.maxEntries] at room
  refine Cache.findsUntil_store room ?_
  rw [UInt64.lt_iff_toNat_lt, Clock.toNat_after]
  omega

theorem verifyAll_of_finds {calls : List Call}
    (finds : s.state.cache.FindsUntil .reports u.text r deadline)
    (spelled : ∀ call ∈ calls, Url.parse call.account = .ok u)
    (early : ∀ call ∈ calls, call.time < deadline) :
    (s.verifyAll calls).1 = List.replicate calls.length (.ok r) ∧
      (s.verifyAll calls).2.state.journal = s.state.journal ∧
      (s.verifyAll calls).2.state.cache.metrics =
        { s.state.cache.metrics with
          hits := s.state.cache.metrics.hits + UInt64.ofNat calls.length } := by
  induction calls generalizing s with
  | nil => exact ⟨rfl, rfl, by simp [verifyAll]⟩
  | cons call rest ih =>
    obtain ⟨parsed, spelled⟩ := List.forall_mem_cons.1 spelled
    obtain ⟨now, early⟩ := List.forall_mem_cons.1 early
    obtain ⟨returned, silent, finds, counted⟩ :=
      verify_of_finds (s := { s with now := call.time }) finds call.caller parsed now
    obtain ⟨results, quiet, hits⟩ := ih finds spelled early
    rw [verifyAll_cons]
    dsimp only at returned silent counted ⊢
    rw [returned, results, quiet, silent, hits, counted]
    refine ⟨rfl, rfl, ?_⟩
    rw [List.length_cons, UInt64.ofNat_add, UInt64.add_comm (.ofNat rest.length), UInt64.add_assoc]
    rfl

/-- A verified report that a call had to compute is what all calls for the account get before its
time is over, whoever calls, in whatever spelling and whatever the backends would answer by then.
Nothing is asked for it, and each of them counts as one hit and nothing else. -/
theorem verified_report_served {caller : Caller} {account : String} {calls : List Call}
    (room : 1 ≤ s.state.cache.maxEntries) (lasts : 1 ≤ 1000 * s.state.cache.defaultTtl.toNat)
    (fits : s.now.toNat + 1000 * s.state.cache.defaultTtl.toNat < UInt64.size)
    (parsed : Url.parse account = .ok u)
    (computed : s.state.cache.peek? .reports u.text s.now = none)
    (returned : (s.verify caller account).1 = .ok r) (verified : r.verified = true)
    (spelled : ∀ call ∈ calls, Url.parse call.account = Url.parse account)
    (early : ∀ call ∈ calls,
      call.time.toNat < s.now.toNat + 1000 * s.state.cache.defaultTtl.toNat) :
    let after := (s.verify caller account).2
    let served := after.verifyAll calls
    served.1 = List.replicate calls.length (.ok r) ∧
      served.2.state.journal = after.state.journal ∧
      served.2.state.cache.metrics =
        { after.state.cache.metrics with
          hits := after.state.cache.metrics.hits + UInt64.ofNat calls.length } := by
  intro after served
  have finds := finds_of_computed room lasts fits parsed computed returned verified
  refine verifyAll_of_finds finds (fun call member => (spelled call member).trans parsed)
    fun call member => ?_
  rw [UInt64.lt_iff_toNat_lt, Clock.toNat_after]
  have := early call member
  omega

namespace Sample

/-- A cache that may hold one entry for one second. -/
def narrow : Session := start ⟨1, 1⟩ 0

/-- Calls without a backend, the first one at the end of the second. -/
def offlineCalls : List Call :=
  [⟨999, callers true, "ACC://alice/"⟩, ⟨0, callers true, " acc://alice"⟩]

end Sample

open Sample in
/-- The one entry that a narrow cache holds after a verification is its report. -/
theorem narrow_serves_offline : ∃ r : Report,
    (narrow.verify (callers false) "acc://alice").1 = .ok r ∧ r.verified = true ∧
      ((narrow.verify (callers false) "acc://alice").2.verifyAll offlineCalls).1 =
        [.ok r, .ok r] ∧
      ((narrow.verify (callers false) "acc://alice").2.verifyAll offlineCalls).2.state.journal =
        (narrow.verify (callers false) "acc://alice").2.state.journal := by
  have passes : (narrow.verify (callers false) "acc://alice").1.toOption.any
      (·.verified) = true := by
    decide +kernel
  obtain ⟨r, returned, verified⟩ := exists_of_any passes
  obtain ⟨u, parsed, text⟩ : ∃ u, Url.parse "acc://alice" = .ok u ∧ u.text = "acc://alice" :=
    parse_alice rfl
  have spelled : ∀ call ∈ offlineCalls, Url.parse call.account = Url.parse "acc://alice" :=
    List.forall_mem_cons.2 ⟨rfl, List.forall_mem_cons.2 ⟨rfl, nofun⟩⟩
  have early : ∀ call ∈ offlineCalls, call.time.toNat < narrow.now.toNat +
      1000 * narrow.state.cache.defaultTtl.toNat := by decide
  obtain ⟨results, silent, -⟩ := verified_report_served (s := narrow) (by decide) (by decide)
    (by decide) parsed rfl returned verified spelled early
  exact ⟨r, returned, verified, results, silent⟩

end Session

end LightClient
