import LightClient.Proofs.Reporting
import LightClient.Proofs.Stores

/-!
# How long an inclusion is used

An inclusion is kept for the default time, and every verification that uses it keeps it anew. So
that time bounds how long after its last use it is used again: once more than it has been used in
between, counted in default times, is all that can be said about the age of what the backend has
answered.
-/
namespace LightClient

/-- What a verification puts to the check of the first layer. -/
structure Serving where
  time : UInt64
  inclusion : Inclusion
  /-- Whether the inclusion was built from what the backend answered at this time. -/
  fetched : Bool
  deriving DecidableEq

/-- What is put to the check once an inclusion has been looked for. -/
def Serving.of? (now : UInt64) (located : Except Failure (Inclusion × Bool)) : Option Serving :=
  located.toOption.map fun (inclusion, fetched) => ⟨now, inclusion, fetched⟩

theorem Serving.of?_eq_some {now : UInt64} {located : Except Failure (Inclusion × Bool)}
    {x : Serving} (served : of? now located = some x) :
    x.time = now ∧ located = .ok (x.inclusion, x.fetched) := by
  cases located with
  | error f => cases served
  | ok found =>
    obtain rfl := Option.some.inj served
    exact ⟨rfl, rfl⟩

namespace Verifier
variable {v : Verifier} {backend : Backend} {now : UInt64} {α β : Type}

/-- What a verification puts to the check of the first layer, if it does not end or find a report
before. -/
def serve? (v : Verifier) (backend : Backend) (now : UInt64) (account : String) :
    StateM State (Option Serving) :=
  unlessReported now account (fun _ => none) (fun _ => none) fun account => do
    let located ← v.locateInclusion backend now account
    return Serving.of? now located

/-- A step keeps the default time and adds nothing to a table. -/
def Spares (t : Cache.Table) (m : StateM State α) : Prop :=
  ∀ s, (m s).2.cache.defaultTtl = s.cache.defaultTtl ∧ s.cache.Gains (·.table ≠ t) (m s).2.cache

theorem StoresIn.spares {tables : List Cache.Table} {t : Cache.Table} {m : StateM State α}
    (h : StoresIn tables m) (apart : t ∉ tables) : Spares t m := fun s =>
  ⟨(h s).1.defaultTtl, (Cache.adds_iff.1 (h s).2).mono fun _ member same => apart (same ▸ member)⟩

end Verifier

/-- An inclusion that is kept has been put to the check, and expires within the default time after
that. -/
def Cache.Record.Backed (ttl : UInt64) (history : List Serving) (x : Cache.Record) : Prop :=
  ∀ p, x.content = ⟨.inclusions, p⟩ →
    ∃ y ∈ history, y.inclusion = p ∧ x.expiresAt ≤ y.time.toNat + 1000 * ttl.toNat

/-- A cache with a default time in which all inclusions are backed. -/
structure Cache.Dated (ttl : UInt64) (history : List Serving) (c : Cache) : Prop where
  lasts : c.defaultTtl = ttl
  backed : ∀ b ∈ c.bindings, b.record.Backed ttl history

namespace Cache
variable {ttl now : UInt64} {history history' : List Serving} {c c' : Cache} {t : Table}
  {key : String}

theorem Record.Backed.mono {x : Record} (h : x.Backed ttl history) (wider : history ⊆ history') :
    x.Backed ttl history' := fun p same => by
  obtain ⟨y, member, own, within⟩ := h p same
  exact ⟨y, wider member, own, within⟩

theorem Record.backed_of_ne {x : Record} (other : x.table ≠ .inclusions) : x.Backed ttl history :=
  fun _ same => absurd (congrArg Sigma.fst same) other

namespace Dated

theorem mono (h : c.Dated ttl history) (wider : history ⊆ history') : c.Dated ttl history' :=
  ⟨h.lasts, fun b hb => (h.backed b hb).mono wider⟩

theorem gains (h : c.Dated ttl history) (same : c'.defaultTtl = c.defaultTtl)
    (gains : c.Gains (·.Backed ttl history) c') : c'.Dated ttl history := by
  refine ⟨same.trans h.lasts, fun b hb => ?_⟩
  rcases gains b hb with new | ⟨b₀, hb₀, old⟩
  · exact new
  · exact old ▸ h.backed b₀ hb₀

theorem of_subset (h : c.Dated ttl history) (same : c'.defaultTtl = c.defaultTtl)
    (fewer : c'.bindings ⊆ c.bindings) : c'.Dated ttl history := h.gains same (.of_subset fewer)

theorem get (h : c.Dated ttl history) : (c.get t key now).2.Dated ttl history :=
  h.gains get_settings.defaultTtl .get

theorem store {value : t.Value} (h : c.Dated ttl history)
    (new : Record.Backed ttl history
      ⟨t, key, value, now.toNat, (Clock.after now (1000 * ttl.toNat)).toNat⟩) :
    (c.store t key value now none).Dated ttl history := by
  refine h.gains store_settings.defaultTtl (.store ?_)
  rw [Option.getD_none, h.lasts]
  exact new

theorem spares {α : Type} {m : StateM Verifier.State α} {s : Verifier.State}
    (h : s.cache.Dated ttl history) (spares : Verifier.Spares .inclusions m) :
    (m s).2.cache.Dated ttl history :=
  h.gains (spares s).1 ((spares s).2.mono fun _ other => Record.backed_of_ne other)

end Dated

end Cache

namespace Verifier
variable {v : Verifier} {backend : Backend} {now ttl : UInt64} {history : List Serving} {s : State}

/-- What is used is stored anew, so that it lasts from now. -/
theorem rememberInclusion_dated {p : Inclusion} {fetched : Bool}
    (h : s.cache.Dated ttl (history ++ [⟨now, p, fetched⟩])) :
    (rememberInclusion now p s).2.cache.Dated ttl (history ++ [⟨now, p, fetched⟩]) := by
  have receipt :
      (s.cache.store .receipts (positionKey p.scope p.chain p.index) p.receipt now none).Dated
      ttl (history ++ [⟨now, p, fetched⟩]) := h.store (Cache.Record.backed_of_ne (by simp))
  change ((s.cache.store .receipts _ p.receipt now none).store .inclusions
    (positionKey p.scope p.chain p.index) p now none).Dated ttl _
  refine receipt.store fun q same => ?_
  have deadline := Clock.toNat_after now (1000 * ttl.toNat)
  cases same
  refine ⟨⟨now, p, fetched⟩, by simp, rfl, ?_⟩
  dsimp only
  omega

theorem runLayers_dated (account : Url) (h : s.cache.Dated ttl history) :
    (v.runLayers backend now account s).2.cache.Dated ttl
      (history ++ (Serving.of? now (v.locateInclusion backend now account s).1).toList) := by
  unfold runLayers
  rw [State.bind_apply, findInclusion_apply]
  have located : (v.locateInclusion backend now account s).2.cache.Dated ttl history :=
    h.spares ((locateInclusion_stores account).spares List.not_mem_nil)
  generalize v.locateInclusion backend now account s = result at located ⊢
  obtain ⟨result, s₁⟩ := result
  have wider := located.mono
    (List.subset_append_left history (Serving.of? now result).toList)
  cases result with
  | error f =>
    dsimp only [Except.map]
    split <;> exact wider
  | ok served =>
    obtain ⟨p, fetched⟩ := served
    dsimp only [Except.map]
    split
    · rw [State.bind_apply]
      exact Cache.Dated.spares (rememberInclusion_dated wider)
        ((runCommitted_stores _ p).spares (by decide))
    · exact wider

theorem verifyAccount_dated (account : String) (h : s.cache.Dated ttl history) :
    (v.verifyAccount backend now account s).2.cache.Dated ttl
      (history ++ (v.serve? backend now account s).1.toList) := by
  unfold verifyAccount serve? unlessReported
  cases Url.parse account with
  | error e => exact h.mono (List.subset_append_left _ _)
  | ok u =>
    dsimp only
    rw [lookup_bind_apply, lookup_bind_apply]
    cases s.cache.peek? .reports u.text now with
    | some r => exact h.get.mono (List.subset_append_left _ _)
    | none =>
      dsimp only
      rw [State.bind_apply, State.bind_apply]
      refine Cache.Dated.spares (runLayers_dated (s := ⟨_, s.journal⟩) u h.get)
        (@StoresIn.spares _ [.reports] _ _ ?_ (by decide))
      cases (v.runLayers backend now u ⟨_, s.journal⟩).1 with
      | error f => exact .pure
      | ok o =>
        dsimp only
        split
        · exact .bind (.remember (by decide)) fun _ => .pure
        · exact .pure

/-- What is found was kept under the key of the head of the chain, or was built for that head. -/
theorem cases_of_located {account : Url} {p : Inclusion} {fetched : Bool}
    (located : (v.locateInclusion backend now account s).1 = .ok (p, fetched)) :
    ∃ index, backend s.journal (.chainHead account v.config.chain) = .ok index ∧
      ((fetched = false ∧
          s.cache.peek? .inclusions (positionKey account v.config.chain index) now = some p) ∨
        (fetched = true ∧
          ∃ j, ((Inclusion.build backend account v.config.chain index).run j).1 = .ok p)) := by
  unfold locateInclusion at located
  rw [asking_bind_apply, Inquiry.run_ask] at located
  cases answered : backend s.journal (.chainHead account v.config.chain) with
  | error cause =>
    rw [answered] at located
    cases located
  | ok index =>
    refine ⟨index, rfl, ?_⟩
    rw [answered] at located
    dsimp only [Failure.ofAnswer, Except.mapError] at located
    rw [lookup_bind_apply] at located
    cases kept : s.cache.peek? .inclusions (positionKey account v.config.chain index) now with
    | some q =>
      rw [kept] at located
      obtain ⟨rfl, rfl⟩ := Prod.mk.inj (Except.ok.inj located)
      exact .inl ⟨rfl, rfl⟩
    | none =>
      rw [kept] at located
      obtain ⟨q, built, same⟩ := Failure.map_eq_ok.1 located
      obtain ⟨rfl, rfl⟩ := Prod.mk.inj same
      exact .inr ⟨rfl, _, built⟩

/-- An inclusion that was not built for a verification is kept, and has not expired. -/
theorem kept_of_located {account : Url} {p : Inclusion}
    (located : (v.locateInclusion backend now account s).1 = .ok (p, false)) :
    ∃ b ∈ s.cache.bindings, b.record.content = ⟨.inclusions, p⟩ ∧
    now.toNat < b.record.expiresAt := by
  obtain ⟨index, -, ⟨-, kept⟩ | ⟨built, -⟩⟩ := cases_of_located located
  · obtain ⟨e, found, rfl⟩ := Option.map_eq_some_iff.1 kept
    obtain ⟨found, fresh⟩ := Option.filter_eq_some_iff.1 found
    have lasting : now.toNat < e.expiresAt.toNat := by
      simpa [Cache.Entry.isExpired, UInt64.le_iff_toNat_le] using fresh
    exact ⟨_, Cache.mem_of_found found, rfl, lasting⟩
  · cases built

theorem serve?_eq_some {account : String} {x : Serving}
    (served : (v.serve? backend now account s).1 = some x) :
    x.time = now ∧ ∃ u, Url.parse account = .ok u ∧ (v.locateInclusion backend now u
      ⟨(s.cache.get .reports u.text now).2, s.journal⟩).1 = .ok (x.inclusion, x.fetched) := by
  unfold serve? unlessReported at served
  cases parsed : Url.parse account with
  | error e =>
    rw [parsed] at served
    cases served
  | ok u =>
    rw [parsed] at served
    dsimp only at served
    rw [lookup_bind_apply] at served
    cases found : s.cache.peek? .reports u.text now with
    | some r =>
      rw [found] at served
      cases served
    | none =>
      rw [found] at served
      dsimp only at served
      rw [State.bind_apply] at served
      obtain ⟨time, located⟩ := Serving.of?_eq_some served
      exact ⟨time, u, rfl, located⟩

/-- An inclusion that is used again has been used within the default time before. -/
theorem served_within {account : String} {x : Serving} (h : s.cache.Dated ttl history)
    (served : (v.serve? backend now account s).1 = some x) (kept : x.fetched = false) :
    ∃ y ∈ history, y.inclusion = x.inclusion ∧ x.time.toNat < y.time.toNat + 1000 * ttl.toNat := by
  obtain ⟨time, u, -, located⟩ := serve?_eq_some served
  rw [kept] at located
  obtain ⟨b, member, content, fresh⟩ := kept_of_located located
  have looked : Cache.Dated ttl history (s.cache.get .reports u.text now).2 := h.get
  obtain ⟨y, earlier, own, within⟩ := looked.backed b member _ content
  exact ⟨y, earlier, own, time ▸ Nat.lt_of_lt_of_le fresh within⟩

end Verifier

namespace Session
variable {κ : Type} (callers : κ → Caller)

/-- What an action puts to the check of the first layer, if it is a verification that comes so
far. -/
def served? (s : Session) : Action κ → Option Serving
  | .verify caller account =>
    ((callers caller).verifier.serve? (callers caller).backend s.now account s.state).1
  | _ => none

/-- What a session puts to the check of the first layer, in the order of time. -/
def servings (s : Session) : List (Action κ) → List Serving
  | [] => []
  | action :: rest => (s.served? callers action).toList ++ servings (s.step callers action) rest

/-- The clock is never set back. -/
def Forward (now : UInt64) : List (Action κ) → Prop
  | [] => True
  | .setClock later :: rest => now ≤ later ∧ Forward later rest
  | _ :: rest => Forward now rest

variable {ttl : UInt64} {history : List Serving} {s : Session}

theorem step_dated (h : s.state.cache.Dated ttl history) (action : Action κ) :
    (s.step callers action).state.cache.Dated ttl
      (history ++ (s.served? callers action).toList) := by
  have dropped {c : Cache} (same : c.defaultTtl = s.state.cache.defaultTtl)
      (fewer : c.bindings ⊆ s.state.cache.bindings) : c.Dated ttl (history ++ []) :=
    (h.of_subset same fewer).mono (List.subset_append_left _ _)
  cases action with
  | verify caller account => exact Verifier.verifyAccount_dated account h
  | setClock now => exact dropped rfl fun _ hb => hb
  | remove t key => exact dropped rfl (Cache.bindings_keepOnly_subset _)
  | clear => exact dropped rfl (Cache.bindings_keepOnly_subset _)
  | clearTable t => exact dropped rfl (Cache.bindings_keepOnly_subset _)
  | prune => exact dropped rfl (Cache.bindings_pruneWhere_subset _)
  | pruneTable t => exact dropped rfl (Cache.bindings_pruneWhere_subset _)
  | evict =>
    exact dropped (Cache.evict_settings s.state.cache 1).1 Cache.bindings_evictOldest_subset

end Session

/-- What is not fetched has been put to the check less than `span` milliseconds before. -/
def Serving.Renewed (span : Nat) (history servings : List Serving) : Prop :=
  ∀ before x after, servings = before ++ x :: after → x.fetched = false →
    ∃ y ∈ history ++ before, y.inclusion = x.inclusion ∧ x.time.toNat < y.time.toNat + span

namespace Session
variable {κ : Type} (callers : κ → Caller) {ttl : UInt64} {history : List Serving} {s : Session}

theorem servings_renewed (h : s.state.cache.Dated ttl history) (actions : List (Action κ)) :
    Serving.Renewed (1000 * ttl.toNat) history (s.servings callers actions) := by
  induction actions generalizing s history with
  | nil => exact fun before x after split => absurd split (by simp [servings])
  | cons action rest ih =>
    have next := ih (step_dated callers h action)
    intro before x after split kept
    rw [servings] at split
    cases served : s.served? callers action with
    | none =>
      rw [served] at split next
      simpa using next before x after split kept
    | some z =>
      rw [served] at split next
      cases before with
      | nil =>
        obtain ⟨rfl, -⟩ := List.cons.inj split
        cases action with
        | verify caller account => simpa using Verifier.served_within h served kept
        | _ => cases served
      | cons w before =>
        obtain ⟨rfl, later⟩ := List.cons.inj split
        simpa using next before x after later kept

theorem step_now_le {action : Action κ} {rest : List (Action κ)}
    (forward : Forward s.now (action :: rest)) :
    s.now ≤ (s.step callers action).now ∧ Forward (s.step callers action).now rest := by
  cases action with
  | setClock later => exact forward
  | _ => exact ⟨UInt64.le_refl _, forward⟩

theorem time_of_served {action : Action κ} {x : Serving}
    (served : s.served? callers action = some x) :
    x.time = s.now := by
  cases action with
  | verify caller account => exact (Verifier.serve?_eq_some served).1
  | _ => cases served

theorem servings_ascending {actions : List (Action κ)} (forward : Forward s.now actions) :
    (∀ x ∈ s.servings callers actions, s.now ≤ x.time) ∧
      (s.servings callers actions).Pairwise (·.time ≤ ·.time) := by
  induction actions generalizing s with
  | nil => exact ⟨fun x member => absurd member List.not_mem_nil, .nil⟩
  | cons action rest ih =>
    obtain ⟨moves, forward⟩ := step_now_le callers forward
    obtain ⟨later, ascending⟩ := ih forward
    rw [servings, List.forall_mem_append, List.pairwise_append]
    have own : ∀ x ∈ (s.served? callers action).toList, x.time = s.now :=
      fun x member => time_of_served callers (Option.mem_toList.1 member)
    have after : ∀ x ∈ (s.step callers action).servings callers rest, s.now ≤ x.time :=
      fun x member => UInt64.le_trans moves (later x member)
    refine ⟨⟨fun x member => UInt64.le_of_eq (own x member).symm, after⟩, ?_, ascending,
      fun x member y member' => own x member ▸ after y member'⟩
    cases s.served? callers action with
    | none => exact .nil
    | some x => exact List.pairwise_singleton _ _

end Session

namespace Serving
variable {span : Nat} {servings before between earlier after : List Serving} {x y : Serving}

/-- What was put to the check had been fetched, then or before. -/
theorem Renewed.exists_fetched (renewed : Renewed span [] servings)
    (split : servings = before ++ x :: after) (kept : x.fetched = false) :
    ∃ y ∈ before, y.fetched = true ∧ y.inclusion = x.inclusion := by
  induction hn : before.length using Nat.strongRecOn generalizing before x after with
  | ind n ih =>
    obtain ⟨y, member, own, -⟩ := renewed before x after split kept
    cases fetched : y.fetched with
    | true => exact ⟨y, member, fetched, own⟩
    | false =>
      obtain ⟨earlier, between, rfl⟩ := List.append_of_mem member
      have shorter : earlier.length < n := by simp [← hn]
      obtain ⟨z, first, fetched, same⟩ :=
        ih _ shorter (by rw [split, List.append_assoc, List.cons_append]) fetched rfl
      exact ⟨z, List.mem_append_left _ first, fetched, same.trans own⟩

/-- Each time that what was fetched is used again, its age may be one span more. -/
theorem Renewed.age (renewed : Renewed span [] servings)
    (ascending : servings.Pairwise (·.time ≤ ·.time))
    (split : servings = earlier ++ y :: between ++ x :: after)
    (kept : ∀ z ∈ between ++ [x], z.inclusion = x.inclusion → z.fetched = false) :
    x.time.toNat < y.time.toNat + span * (between.countP (·.inclusion = x.inclusion) + 1) := by
  induction hn : between.length using Nat.strongRecOn generalizing between x after with
  | ind n ih =>
    obtain ⟨w, member, own, within⟩ := renewed (earlier ++ y :: between) x after split
      (kept x (by simp) rfl)
    have once := Nat.le_mul_of_pos_right span
      (Nat.zero_lt_succ (between.countP (·.inclusion = x.inclusion)))
    rw [Nat.succ_eq_add_one] at once
    rw [List.nil_append] at member
    rcases List.mem_append.1 member with first | member
    · -- What was used before the fetch is not later than it.
      rw [split, List.append_assoc, List.pairwise_append] at ascending
      have order : w.time.toNat ≤ y.time.toNat := UInt64.le_iff_toNat_le.1
        (ascending.2.2 w first y (by simp))
      omega
    · rcases List.mem_cons.1 member with rfl | member
      · omega
      · obtain ⟨b, b', rfl⟩ := List.append_of_mem member
        have whole : servings = earlier ++ y :: b ++ w :: (b' ++ x :: after) := by simp [split]
        have earlierUse := ih b.length (by simp [← hn]) whole (fun z inside same => kept z (by
            rcases List.mem_append.1 inside with inside | inside
            · simp [inside]
            · simp [List.mem_singleton.1 inside]) (same.trans own)) rfl
        rw [own] at earlierUse
        have uses : b.countP (·.inclusion = x.inclusion) + 1 ≤
            (b ++ w :: b').countP (·.inclusion = x.inclusion) := by
          rw [List.countP_append, List.countP_cons_of_pos (by simp [own])]
          omega
        have more : span * (b.countP (·.inclusion = x.inclusion) + 1) + span ≤
            span * ((b ++ w :: b').countP (·.inclusion = x.inclusion) + 1) :=
          Nat.mul_le_mul_left span (Nat.succ_le_succ uses)
        omega

/-- The last time that an inclusion was fetched. -/
theorem exists_last_fetched {p : Inclusion}
    (fetched : ∃ y ∈ before, y.fetched = true ∧ y.inclusion = p) :
    ∃ earlier y between, before = earlier ++ y :: between ∧ y.fetched = true ∧ y.inclusion = p ∧
      ∀ z ∈ between, z.inclusion = p → z.fetched = false := by
  induction before with
  | nil =>
    obtain ⟨y, member, -⟩ := fetched
    cases member
  | cons first rest ih =>
    by_cases again : ∃ y ∈ rest, y.fetched = true ∧ y.inclusion = p
    · obtain ⟨earlier, y, between, rfl, last⟩ := ih again
      exact ⟨first :: earlier, y, between, rfl, last⟩
    · have none : ∀ z ∈ rest, z.inclusion = p → z.fetched = false := fun z member own =>
        Bool.eq_false_iff.2 fun fetched => again ⟨z, member, fetched, own⟩
      obtain ⟨y, member, fetched, own⟩ := fetched
      rcases List.mem_cons.1 member with rfl | member
      · exact ⟨[], y, rest, rfl, fetched, own, none⟩
      · exact absurd ⟨y, member, fetched, own⟩ again

end Serving

namespace Session
variable {κ : Type} {callers : κ → Caller} {settings : CacheConfig} {now : UInt64}
  {actions : List (Action κ)} {before after : List Serving} {x : Serving}

/-- Whatever a verification puts to the check of the first layer has been built from answers that
the backend gave then, or less than `n` default times before if this is the `n`-th use since. So
answers are used within the default time as long as what was built from them is not used again
before. -/
theorem age_of_evidence (forward : Forward now actions)
    (served : (start settings now).servings callers actions = before ++ x :: after) :
    x.fetched = true ∨ ∃ earlier y between, before = earlier ++ y :: between ∧
      y.fetched = true ∧ y.inclusion = x.inclusion ∧
      (∀ z ∈ between, z.inclusion = x.inclusion → z.fetched = false) ∧
      x.time.toNat < y.time.toNat +
        1000 * settings.defaultTtl.toNat * (between.countP (·.inclusion = x.inclusion) + 1) := by
  have dated : (start settings now).state.cache.Dated settings.defaultTtl [] :=
    ⟨rfl, fun b hb => absurd hb List.not_mem_nil⟩
  have renewed := servings_renewed callers dated actions
  have ascending := (servings_ascending callers (s := start settings now) forward).2
  cases fetched : x.fetched with
  | true => exact .inl rfl
  | false =>
    obtain ⟨earlier, y, between, rfl, first, own, none⟩ :=
      Serving.exists_last_fetched (renewed.exists_fetched served fetched)
    refine .inr ⟨earlier, y, between, rfl, first, own, none, renewed.age ascending served ?_⟩
    intro z member same
    rcases List.mem_append.1 member with member | member
    · exact none z member same
    · exact List.mem_singleton.1 member ▸ fetched

/-- Verifications of accounts at given times, by one caller. -/
def verifications (calls : List (UInt64 × String)) : List (Action Unit) :=
  calls.flatMap fun (time, account) => [.setClock time, .verify () account]

namespace Sample

/-- Without commits no report is kept, so that every verification looks for the inclusion. -/
def unsigned : Caller := ⟨verifier, .fixed unsignedAnswers⟩

/-- Three verifications with less than the default time from each to the next. -/
def thrice : List (UInt64 × String) :=
  [(0, "acc://alice"), (200000, "acc://alice"), (400000, "acc://alice")]

theorem thrice_forward : Forward 0 (verifications thrice) := by
  simp only [verifications, thrice, List.flatMap_cons, List.flatMap_nil, List.cons_append,
    List.nil_append, Forward, and_true]
  decide

theorem thrice_servings : ∃ a b c : Serving,
    (start .default 0).servings (fun _ => unsigned) (verifications thrice) = [a, b] ++ c :: [] ∧
      (a.time = 0 ∧ a.fetched = true) ∧ b.fetched = false ∧ c.time = 400000 ∧
      c.fetched = false := by
  have course : ((start .default 0).servings (fun _ => unsigned) (verifications thrice)).map
      (fun x => (x.time, x.fetched)) = [(0, true), (200000, false), (400000, false)] := by
    decide +kernel
  obtain ⟨a, rest, servings, first, course⟩ := List.map_eq_cons_iff.1 course
  obtain ⟨b, rest, rfl, second, course⟩ := List.map_eq_cons_iff.1 course
  obtain ⟨c, rest, rfl, third, course⟩ := List.map_eq_cons_iff.1 course
  obtain rfl := List.map_eq_nil_iff.1 course
  exact ⟨a, b, c, servings, Prod.mk.inj first, (Prod.mk.inj second).2, Prod.mk.inj third⟩

end Sample

/-- The third verification uses for the second time again what the first one has fetched. -/
theorem age_of_third_serving :
    Forward 0 (verifications Sample.thrice) ∧ ∃ a b c,
      (start .default 0).servings (fun _ => Sample.unsigned) (verifications Sample.thrice)
        = [a, b] ++ c :: [] ∧ a.inclusion = c.inclusion ∧
      c.time.toNat < a.time.toNat + 1000 * CacheConfig.default.defaultTtl.toNat * 2 := by
  obtain ⟨a, b, c, servings, fetched, kept, -, kept'⟩ := Sample.thrice_servings
  refine ⟨Sample.thrice_forward, a, b, c, servings, ?_⟩
  rcases age_of_evidence Sample.thrice_forward servings with first |
      ⟨earlier, y, between, split, first,
    own, none, age⟩
  · rw [kept'] at first
    cases first
  · cases earlier with
    | nil =>
      obtain ⟨rfl, rfl⟩ := List.cons.inj split
      refine ⟨own, Nat.lt_of_lt_of_le age (Nat.add_le_add_left (Nat.mul_le_mul_left _ ?_) _)⟩
      exact Nat.succ_le_succ List.countP_le_length
    | cons _ earlier =>
      have last : y ∈ [b] :=
        (List.cons.inj split).2 ▸ List.mem_append_right earlier List.mem_cons_self
      rw [List.mem_singleton.1 last, kept] at first
      cases first

/-- So what is fetched once is used beyond the default time, if it is used often enough. -/
theorem evidence_outlives_ttl :
    ¬ ∀ (caller : Caller) (now : UInt64) (calls : List (UInt64 × String)),
    0 < caller.verifier.config.cache.defaultTtl → (now :: calls.map Prod.fst).Pairwise (· ≤ ·) →
      ∀ before x after, (start caller.verifier.config.cache now).servings (fun _ => caller)
          (verifications calls) = before ++ x :: after →
        ∃ y ∈ before ++ [x], y.fetched = true ∧ y.inclusion = x.inclusion ∧
          x.time.toNat < y.time.toNat + 1000 * caller.verifier.config.cache.defaultTtl.toNat := by
  intro bounded
  obtain ⟨a, b, c, servings, ⟨start, fetched⟩, kept, time, kept'⟩ := Sample.thrice_servings
  obtain ⟨y, member, fetched, -, age⟩ :=
    bounded Sample.unsigned 0 Sample.thrice (by decide) (by decide)
    _ c _ servings
  rw [time] at age
  simp only [List.mem_append, List.mem_cons, List.not_mem_nil, or_false] at member
  rcases member with (rfl | rfl) | rfl
  · rw [start] at age
    revert age
    decide
  · rw [kept] at fetched
    cases fetched
  · rw [kept'] at fetched
    cases fetched

end Session

end LightClient
