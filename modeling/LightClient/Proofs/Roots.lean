import LightClient.Proofs.Soundness

/-!
# Whose genesis a report goes back to

Verifiers with the same settings but a genesis each may share a cache. Walks from genesis are kept
under the hash of the genesis, but reports under the account alone. So the layers lead a verifier
back to a genesis with its own hash, whereas a report that is kept is returned to every verifier,
whichever genesis it goes back to.
-/
namespace LightClient

theorem Genesis.eq_of_fields {g h : Genesis} (hash : g.hash = h.hash)
    (validators : g.validators = h.validators) : g = h := by
  cases g
  cases h
  simp_all

namespace Session
open Verifier

/-- The validators of a report go back to the verifier's own genesis. -/
def FromOwnGenesis (told : (query : Query) → Except QueryError query.Answer → Prop) (v : Verifier)
    (r : Report) : Prop :=
  ∃ f, r.finality = some f ∧ Rooted told v.anchoring (· = v.genesis) f

/-- Then handovers, each signed by a quorum of the outgoing set, lead from the verifier's own
genesis validators to those of the report, or else the digest confuses two sets. -/
theorem FromOwnGenesis.chain {told : (query : Query) → Except QueryError query.Answer → Prop}
    {v : Verifier} {r : Report} (h : FromOwnGenesis told v r) :
    ∃ f set handovers reached, r.finality = some f ∧
      Handover.Chain v.config.algorithm v.genesis.validators 0 handovers set reached ∧
      v.config.algorithm.digest (Validator.encodeSet set) =
        v.config.algorithm.digest (Validator.encodeSet f.validators) := by
  obtain ⟨f, finality, _, set, _, _, rfl, descends, digest⟩ := h
  obtain ⟨handovers, reached, chain⟩ := descends.reaches.chain
  exact ⟨f, set, handovers, reached, finality, chain, digest⟩

section
variable {κ : Type} (callers : κ → Caller)

/-- A kept report is verified and goes back to the genesis of some caller. -/
theorem kept_report_rooted
    (same : ∀ k l, (callers k).verifier.config = (callers l).verifier.config) (k : κ)
    (settings : CacheConfig) (now : UInt64) (actions : List (Action κ)) {u : Url} {kept : Report}
    (found : ((start settings now).run callers actions).state.cache.peek? .reports u.text
      ((start settings now).run callers actions).now = some kept) :
    kept.verified = true ∧ ∃ f, kept.finality = some f ∧
      Rooted ((start settings now).run callers actions).state.journal.Told
        (callers k).verifier.anchoring (SomeGenesis callers) f := by
  obtain ⟨verified, -, p, f, -, finality, proven⟩ :=
    (run_kept callers same k settings now actions).of_peek? found
  exact ⟨verified, f, finality, proven.rooted⟩

/-- Without a kept report the layers lead back to a genesis with the caller's own hash. -/
theorem fresh_report_rooted
    (same : ∀ k l, (callers k).verifier.config = (callers l).verifier.config) (k : κ)
    (settings : CacheConfig) (now : UInt64) (actions : List (Action κ)) {account : String} {u : Url}
    (parsed : Url.parse account = .ok u)
    (missing : ((start settings now).run callers actions).state.cache.peek? .reports u.text
      ((start settings now).run callers actions).now = none) {r : Report}
    (returned : (((start settings now).run callers actions).verify (callers k) account).1 = .ok r)
    (verified : r.verified = true) :
    ∃ f, r.finality = some f ∧
      Rooted
        (((start settings now).run callers actions).verify (callers k) account).2.state.journal.Told
        (callers k).verifier.anchoring
        (fun g => SomeGenesis callers g ∧ g.hash = (callers k).verifier.genesis.hash) f := by
  rw [verify_result, verifyAccount_eq parsed, lookup_bind_apply, missing] at returned
  rw [verify_state, verifyAccount_eq parsed, lookup_bind_apply, missing]
  obtain ⟨-, -, reports⟩ := reportLayers_assures (callers k).backend
    ((start settings now).run callers actions).now u (⟨k, rfl⟩ : SomeGenesis callers _)
    ⟨(((start settings now).run callers actions).state.cache.get .reports u.text
      ((start settings now).run callers actions).now).2,
      ((start settings now).run callers actions).state.journal⟩ (List.prefix_refl _)
    (run_kept callers same k settings now actions).get
  obtain ⟨-, p, f, -, finality, proven⟩ := reports r returned verified
  exact ⟨f, finality, proven.rooted⟩

/-- Let each genesis hash stand for one validator set. Then what a caller gets goes back to its own
genesis if and only if the report that is kept for the account, if there is one, does so. Where two
genesis sets have one hash this may fail without any such report: `trace_transfers` is a run in
which a kept walk serves for both. -/
theorem returns_own_iff (same : ∀ k l, (callers k).verifier.config = (callers l).verifier.config)
    (settings : CacheConfig) (now : UInt64) (actions : List (Action κ)) (k : κ) (account : String)
    (u : Url) (parsed : Url.parse account = .ok u)
    (distinct : ∀ l, (callers l).verifier.genesis.hash = (callers k).verifier.genesis.hash →
      (callers l).verifier.genesis.validators = (callers k).verifier.genesis.validators) :
    let s := (start settings now).run callers actions
    let told := (s.verify (callers k) account).2.state.journal.Told
    (∀ r, (s.verify (callers k) account).1 = .ok r → r.verified = true →
        FromOwnGenesis told (callers k).verifier r) ↔
      ∀ kept, s.state.cache.peek? .reports u.text s.now = some kept →
        FromOwnGenesis told (callers k).verifier kept := by
  intro s told
  constructor
  · intro own kept found
    have verified := (kept_report_rooted callers same k settings now actions found).1
    exact own kept (verify_of_kept (callers k) parsed found).1 verified
  · intro own r returned verified
    cases found : s.state.cache.peek? .reports u.text s.now with
    | some kept =>
      have returnedKept := (verify_of_kept (callers k) parsed found).1
      obtain rfl := Except.ok.inj (returnedKept.symm.trans returned)
      exact own kept found
    | none =>
      obtain ⟨f, finality, rooted⟩ :=
        fresh_report_rooted callers same k settings now actions parsed found returned verified
      refine ⟨f, finality, rooted.mono (fun _ _ told => told) ?_⟩
      rintro _ ⟨⟨l, rfl⟩, hash⟩
      exact Genesis.eq_of_fields hash (distinct l hash)

end

namespace Sample

/-- A validator whose key is no point of the curve, so that nothing is its signature. -/
def mute : Validator := ⟨[], 2 :: List.replicate 31 0, 1⟩

/-- A verifier with a genesis of its own. -/
def stranger : Verifier := ⟨.default, ⟨root, [mute]⟩, .directory, rfl⟩

def strangers : Bool → Caller
  | false => ⟨verifier, .fixed answers⟩
  | true => ⟨stranger, .fixed answers⟩

/-- A verifier whose genesis has the hash of another one, but validators of its own. -/
def namesake : Verifier := ⟨.default, ⟨.zero, [mute]⟩, .directory, rfl⟩

def namesakes : Bool → Caller
  | false => ⟨verifier, .fixed answers⟩
  | true => ⟨namesake, .fixed answers⟩

theorem not_signed_by_mute (message : Hash) (signature : Bytes) :
    Handover.isSignedBy message mute signature = false := by
  have noPoint : Ed25519.Point.decode? mute.publicKey = none :=
    Option.isNone_iff_eq_none.1 (by decide +kernel)
  unfold Handover.isSignedBy Ed25519.verify
  rw [noPoint]
  simp

theorem signatories_of_mute {algorithm : HashAlgorithm} {h : Handover}
    (outgoing : h.oldSet = [mute]) :
    h.signatories algorithm = [] := by
  unfold Handover.signatories
  rw [List.map_eq_nil_iff, List.filter_eq_nil_iff]
  intro slot member
  have signer := (List.of_mem_zip member).1
  rw [outgoing, List.mem_singleton] at signer
  rw [signer, not_signed_by_mute, Bool.and_false]
  exact Bool.false_ne_true

/-- Nothing but the set itself descends from a set that cannot sign. -/
theorem chain_of_mute {algorithm : HashAlgorithm} {height reached : Int64}
    {handovers : List Handover}
    {final : List Validator} (h : Handover.Chain algorithm [mute] height handovers final reached) :
    final = [mute] := by
  cases h with
  | done => rfl
  | next admitted _ outgoing _ =>
    have quorum := admitted.quorum
    rw [outgoing, signatories_of_mute outgoing] at quorum
    exact absurd quorum (by decide)

/-- So handovers do not lead from a set that cannot sign to the validator of the sample. -/
theorem not_from_mute {algorithm : HashAlgorithm} {f : Finality}
    (members : f.validators = [validator]) :
    ¬ ∃ handovers reached, Handover.Chain algorithm [mute] 0 handovers f.validators reached := by
  intro h
  obtain ⟨handovers, reached, chain⟩ := h
  rw [members] at chain
  exact absurd (chain_of_mute chain) (by decide)

end Sample

/-- A verifier reports full trust in validators that its own genesis does not lead to, because a
verifier with another genesis has used the cache before. -/
theorem trust_transfers : ∃ r f,
    (((start .default 0).run Sample.strangers [.verify false "acc://alice"]).verify
      (Sample.strangers true) "acc://alice").1 = .ok r ∧ r.verified = true ∧ r.finality = some f ∧
    ¬ ∃ handovers reached, Handover.Chain Sample.stranger.config.algorithm
      Sample.stranger.genesis.validators 0 handovers f.validators reached := by
  obtain ⟨r, kept, verified, f, finality, members⟩ := Sample.report_kept
  obtain ⟨u, parsed, text⟩ : ∃ u, Url.parse "acc://alice" = .ok u ∧ u.text = "acc://alice" :=
    Sample.parse_alice rfl
  rw [← text] at kept
  have returned := (verify_of_kept (Sample.strangers true) parsed kept).1
  exact ⟨r, f, returned, verified, finality, Sample.not_from_mute members⟩

/-- The assumption of `returns_own_iff` on the callers' genesis hashes is needed. Without a report
on the account a verifier may still get full trust from a genesis that is not its own, as long as
the hash is the same: walks are kept under the hash, and not under the validators that the walk
starts from. -/
theorem trace_transfers : ∃ r f,
    (((start .default 0).run Sample.namesakes [.verify false "acc://alice"]).verify
      (Sample.namesakes true) "acc://bob").1 = .ok r ∧ r.verified = true ∧ r.finality = some f ∧
    ¬ ∃ handovers reached, Handover.Chain Sample.namesake.config.algorithm
      Sample.namesake.genesis.validators 0 handovers f.validators reached := by
  have reported : (((start .default 0).run Sample.namesakes [.verify false "acc://alice"]).verify
      (Sample.namesakes true) "acc://bob").1.toOption.any (fun r => r.verified &&
        r.finality.any (·.validators == [Sample.validator])) = true := by decide +kernel
  obtain ⟨r, returned, passes⟩ := Sample.exists_of_any reported
  obtain ⟨verified, signed⟩ := Bool.and_eq_true_iff.1 passes
  obtain ⟨f, finality, members⟩ := (Option.any_eq_true _ _).1 signed
  exact ⟨r, f, returned, verified, finality, Sample.not_from_mute (by simpa using members)⟩

/-- What the stranger gets depends on the report that the first verifier has left. -/
theorem stranger_returns_own_iff : ∃ u, Url.parse "acc://alice" = .ok u ∧
    let s := (start .default 0).run Sample.strangers [.verify false "acc://alice"]
    let told := (s.verify (Sample.strangers true) "acc://alice").2.state.journal.Told
    (∀ r, (s.verify (Sample.strangers true) "acc://alice").1 = .ok r → r.verified = true →
        FromOwnGenesis told Sample.stranger r) ↔
      ∀ kept, s.state.cache.peek? .reports u.text s.now = some kept →
        FromOwnGenesis told Sample.stranger kept := by
  obtain ⟨u, parsed⟩ : ∃ u, Url.parse "acc://alice" = .ok u := ⟨_, rfl⟩
  refine ⟨u, parsed, returns_own_iff Sample.strangers ?_ .default 0
    [.verify false "acc://alice"] true "acc://alice" u parsed ?_⟩
  · intro k l
    cases k <;> cases l <;> rfl
  · intro l
    cases l
    · intro hash
      exact absurd hash (by decide)
    · exact fun _ => rfl

end Session

end LightClient
