import LightClient.Proofs.Evidence
import LightClient.Proofs.Keys

/-!
# A cache changes nothing but the effort

With a backend that answers a query the same whenever it is asked, a verification comes to the same
whatever its cache has kept from before: each table holds what asking again would lead to. Only the
details of findings and the times tell a difference. What is asked with a warm cache is part of what
is asked with an empty one.
-/
namespace LightClient

namespace Finding

/-- What a finding says apart from details. -/
def verdict (f : Finding) : String × Bool × Option String × Option Failure.Kind :=
  (f.layer, f.valid, f.errorMessage, f.errorKind)

@[simp] theorem verdict_withDetail (f : Finding) (key : String) (value : Json) :
    (f.withDetail key value).verdict = f.verdict := rfl

end Finding

/-- Reports that say the same apart from details and times. -/
structure Report.Alike (a b : Report) : Prop where
  account : a.account = b.account
  trustLevel : a.trustLevel = b.trustLevel
  verified : a.verified = b.verified
  findings : a.findings.map Finding.verdict = b.findings.map Finding.verdict
  inclusion : a.inclusion = b.inclusion
  finality : a.finality = b.finality

theorem Report.Alike.trans {a b c : Report} (h : a.Alike b) (k : b.Alike c) : a.Alike c :=
  ⟨h.account.trans k.account, h.trustLevel.trans k.trustLevel, h.verified.trans k.verified,
    h.findings.trans k.findings, h.inclusion.trans k.inclusion, h.finality.trans k.finality⟩

/-- Both fail for the same cause, or both succeed and agree. -/
inductive SameResult {α β : Type} (R : α → β → Prop) : Except Failure α → Except Failure β → Prop
  | error (f : Failure) : SameResult R (.error f) (.error f)
  | ok {a : α} {b : β} (same : R a b) : SameResult R (.ok a) (.ok b)

namespace Verifier

/-- Runs of the layers that have come to the same apart from details. -/
structure Outcome.Alike (a b : Outcome) : Prop where
  recorded : a.recorded.map Finding.verdict = b.recorded.map Finding.verdict
  skipped : a.skipped = b.skipped
  inclusion : a.inclusion = b.inclusion
  finality : a.finality = b.finality
  included : a.included = b.included
  anchored : a.anchored = b.anchored
  signed : a.signed = b.signed
  traced : a.traced = b.traced

namespace Outcome

theorem Alike.refl (o : Outcome) : o.Alike o := ⟨rfl, rfl, rfl, rfl, rfl, rfl, rfl, rfl⟩

theorem Alike.record {a b : Outcome} {f g : Finding} (h : a.Alike b)
    (same : f.verdict = g.verdict) :
    (a.record f).Alike (b.record g) := by
  refine ⟨?_, h.skipped, h.inclusion, h.finality, h.included, h.anchored, h.signed, h.traced⟩
  simp only [Outcome.record, List.map_append, List.map_cons, List.map_nil, h.recorded, same]

theorem Alike.stopAfter {a b : Outcome} (h : a.Alike b) (layer : Layer) (reason : String) :
    (a.stopAfter layer reason).Alike (b.stopAfter layer reason) :=
  ⟨h.recorded, rfl, h.inclusion, h.finality, h.included, h.anchored, h.signed, h.traced⟩

theorem Alike.report {a b : Outcome} (h : a.Alike b) (now later : UInt64) (account : Url) :
    (Verifier.report now account a).Alike (Verifier.report later account b) := by
  have level : (Verifier.report now account a).trustLevel
      = (Verifier.report later account b).trustLevel := by
    simp only [Verifier.report, h.included, h.anchored, h.signed, h.traced]
  refine ⟨rfl, level, congrArg (fun l => decide (l = TrustLevel.full)) level, ?_, h.inclusion,
    h.finality⟩
  simp only [Verifier.report, List.map_append, h.recorded, h.skipped]

end Outcome

section
variable (v : Verifier) (answers : (query : Query) → Except QueryError query.Answer)

/-- A finality that the authority's validators have given to a block which the backend answers. -/
def Signed (f : Finality) : Prop :=
  ∃ block, answers (.block v.authority block.height) = .ok block ∧
    (Commit.verifyFetched (.fixed answers) v.authority block []).1.2 = some f

/-- A value that is kept is what asking the backend again leads to, whatever its key stands for. -/
def Faithful : (t : Cache.Table) → String → t.Value → Prop
  | .reports, key, r => ∀ account, key = account.text →
      ∃ o, (Uncached.runLayers v (.fixed answers) account []).1 = .ok o ∧
      r.Alike (report 0 account o)
  | .receipts, _, _ => True
  | .inclusions, key, p => ∀ account index, key = positionKey account v.config.chain index →
      ((Inclusion.build (.fixed answers) account v.config.chain index).run []).1 = .ok p
  | .finalities, key, f => ∀ block, key = blockKey v.authority block.height →
      answers (.block v.authority block.height) = .ok block →
      (Commit.verifyFetched (.fixed answers) v.authority block []).1.2 = some f
  | .traces, key, trace => ∀ f, Signed v answers f →
      key = v.traceKey f.blockHeight f.validators →
      ((v.traceGenesis (.fixed answers) f.validators f.blockHeight).run []).1 = .ok trace

end

/-- With a cache that holds `P` a step comes to what `u` comes to, up to `R`, asks some of what `u`
asks in the same order, and lets the cache hold `P`. -/
def Follows {α β : Type} (P : (t : Cache.Table) → String → t.Value → Prop) (R : α → β → Prop)
    (m : StateM State α) (u : StateM Journal β) : Prop :=
  ∀ s : State, s.cache.Holds P → R (m s).1 (u []).1 ∧ (m s).2.cache.Holds P ∧
    ∃ log, (m s).2.journal = s.journal ++ log ∧ log.Sublist (u []).2

namespace Follows
variable {α β γ δ : Type} {P : (t : Cache.Table) → String → t.Value → Prop}
  {answers : (query : Query) → Except QueryError query.Answer} {R : α → β → Prop} {S : γ → δ → Prop}
  {now : UInt64} {t : Cache.Table} {key : String}

/-- To know the result is to ask nothing. -/
theorem pure {a : α} {u : StateM Journal β} (same : R a (u []).1) : Follows P R (pure a) u :=
  fun _ h => ⟨same, h, [], (List.append_nil _).symm, List.nil_sublist _⟩

theorem asking {u : StateM Journal α} (asks : Asks (.fixed answers) u) :
    Follows P Eq (asking u) u := fun s h => by
  refine ⟨congrArg Prod.fst (asks.oblivious s.journal), h, (u []).2,
    congrArg Prod.snd (asks.oblivious s.journal), List.Sublist.refl _⟩

variable (answers) in
theorem bind {m : StateM State α} {u : StateM Journal β} {f : α → StateM State γ}
    {g : β → StateM Journal δ} (first : Follows P R m u) (asks : ∀ b, Asks (.fixed answers) (g b))
    (next : ∀ a, R a (u []).1 → Follows P S (f a) (g (u []).1)) :
    Follows P S (m >>= f) (u >>= g) := fun s h => by
  obtain ⟨same, kept, log, journal, fewer⟩ := first s h
  obtain ⟨result, kept, more, journal', fewer'⟩ := next (m s).1 same (m s).2 kept
  have run : (u >>= g) [] = ((g (u []).1 []).1, (u []).2 ++ (g (u []).1 []).2) := by
    rw [Journal.bind_apply, (asks _).oblivious]
  rw [run]
  refine ⟨result, kept, log ++ more, ?_, fewer.append fewer'⟩
  rw [journal, List.append_assoc] at journal'
  exact journal'

theorem map {m : StateM State α} {u : StateM Journal β} {T : γ → β → Prop} {f : α → γ}
    (first : Follows P R m u) (next : ∀ a b, R a b → T (f a) b) :
    Follows P T (m >>= fun a => Pure.pure (f a)) u := fun s h => by
  obtain ⟨same, rest⟩ := first s h
  exact ⟨next _ _ same, rest⟩

theorem lookup_bind {f : Option t.Value → StateM State γ} {u : StateM Journal δ}
    (hit : ∀ value, P t key value → Follows P S (f (some value)) u)
    (miss : Follows P S (f none) u) : Follows P S (lookup now t key >>= f) u := fun s h => by
  rw [lookup_bind_apply]
  cases found : s.cache.peek? t key now with
  | none => exact miss _ h.get
  | some value => exact hit value (h.of_peek? found) _ h.get

theorem remember_bind {value : t.Value} {m : StateM State γ} {u : StateM Journal δ}
    (holds : P t key value) (next : Follows P S m u) :
    Follows P S (remember now t key value >>= fun _ => m) u := fun s h =>
  next ⟨s.cache.store t key value now none, s.journal⟩ (h.store holds)

end Follows

section
variable {v : Verifier} {answers : (query : Query) → Except QueryError query.Answer} {now : UInt64}

theorem locateInclusion_follows (account : Url) :
    Follows (Faithful v answers) (fun located found => located.map Prod.fst = found)
      (v.locateInclusion (.fixed answers) now account)
      (Uncached.findInclusion v (.fixed answers) account).run := by
  change Follows _ _ _ ((Backend.ask (.fixed answers) _ (.chainHead account v.config.chain)).run
    >>= ExceptT.bindCont _)
  refine (Follows.asking (Asks.ask _ _)).bind answers (fun result => ?_) ?_
  · cases result with
    | ok index => exact Inclusion.build_asks _ _ _ index
    | error f => exact .pure (Except.error f)
  · rintro result rfl
    cases ((Backend.ask (.fixed answers) _ (.chainHead account v.config.chain)).run []).1 with
    | error f => exact .pure rfl
    | ok index =>
      refine .lookup_bind (fun p kept => .pure (kept account index rfl).symm) ?_
      refine .map (.asking (Inclusion.build_asks _ _ _ index)) ?_
      rintro built _ rfl
      cases built <;> rfl

theorem findInclusion_follows (account : Url) :
    Follows (Faithful v answers) Eq (v.findInclusion (.fixed answers) now account)
      (Uncached.findInclusion v (.fixed answers) account).run :=
  (locateInclusion_follows account).map fun _ _ same => same

/-- What is kept of an inclusion is faithful. -/
theorem faithful_inclusion {account : Url} {p : Inclusion}
    (h : ((Uncached.findInclusion v (.fixed answers) account).run []).1 = .ok p) :
    Faithful v answers .inclusions (positionKey p.scope p.chain p.index) p := by
  obtain ⟨_, found⟩ := Inquiry.exists_yields.2 h
  obtain ⟨index, j, -, built⟩ := Inquiry.yields_ask_bind.1 found
  have result := (Inquiry.yields_iff.1 built).1
  obtain ⟨scope, chain, own⟩ := Inclusion.position_of_build result
  rw [scope, chain, own]
  intro other i same
  obtain ⟨rfl, rfl⟩ := positionKey_injective same
  rwa [(Inclusion.build_asks _ _ _ index).oblivious] at result

/-- With fixed answers the block at a height of the authority is determined. -/
theorem signed_unique {f g : Finality} (hf : Signed v answers f) (hg : Signed v answers g)
    (same : f.blockHeight = g.blockHeight) : f = g := by
  obtain ⟨block, answer, final⟩ := hf
  obtain ⟨other, answer', final'⟩ := hg
  have height := (Commit.verifyFetched_eq_some.1 final).choose_spec.2.blockHeight
  have height' := (Commit.verifyFetched_eq_some.1 final').choose_spec.2.blockHeight
  have heights : block.height = other.height := by
    rw [← UInt64.toNat_inj]
    rw [same] at height
    omega
  rw [heights] at answer
  obtain rfl := Except.ok.inj (answer.symm.trans answer')
  exact Option.some.inj (final.symm.trans final')

theorem faithful_finality {block : Block} {f : Finality}
    (known : answers (.block v.authority block.height) = .ok block)
    (final : (Commit.verifyFetched (.fixed answers) v.authority block []).1.2 = some f) :
    Faithful v answers .finalities (blockKey v.authority block.height) f := by
  intro other same answer
  obtain ⟨-, height⟩ := blockKey_injective same
  rw [← height] at answer
  obtain rfl := Except.ok.inj (known.symm.trans answer)
  exact final

theorem faithful_trace {f : Finality} {trace : GenesisTrace} (signed : Signed v answers f)
    (traced : ((v.traceGenesis (.fixed answers) f.validators f.blockHeight).run []).1 = .ok trace) :
    Faithful v answers .traces (v.traceKey f.blockHeight f.validators) trace := by
  intro g other same
  obtain ⟨-, height, -⟩ := traceKey_injective same
  obtain rfl := signed_unique signed other height
  exact traced

variable (now) in
theorem fetchSignatures_follows {block : Block}
    (known : answers (.block v.authority block.height) = .ok block) :
    Follows (Faithful v answers) Eq (fetchSignatures (.fixed answers) now v.authority block)
      (Commit.verifyFetched (.fixed answers) v.authority block) := by
  have same : Commit.verifyFetched (.fixed answers) v.authority block =
      Commit.verifyFetched (.fixed answers) v.authority block >>= Pure.pure := rfl
  rw [same]
  refine (Follows.asking (Commit.verifyFetched_asks block)).bind answers
    (fun _ => .pure _) ?_
  rintro result rfl
  cases found : (Commit.verifyFetched (.fixed answers) v.authority block []).1 with
  | mk finding finality? =>
    cases finality? with
    | none => exact .pure rfl
    | some f =>
      exact .remember_bind (faithful_finality known (congrArg Prod.snd found)) (.pure rfl)

theorem verdict_of_verify {block : Block} {commit : Commit} {validators : List Validator}
    {f : Finality} (final : (Commit.verify block commit validators).2 = some f) :
    (Commit.verify block commit validators).1.verdict =
      (Finding.passed Layer.blockSignatures.name).verdict := by
  unfold Commit.verify at final ⊢
  split at final
  · dsimp only at final
    split at final
    · rename_i quorum
      simp only [quorum, if_true]
      rfl
    · cases final
  · cases final

/-- A block that is final passes the layer; details apart, the finding says nothing else. -/
theorem verdict_of_verifyFetched {backend : Backend} {partition : Url} {block : Block} {j : Journal}
    {f : Finality} (final : (Commit.verifyFetched backend partition block j).1.2 = some f) :
    (Commit.verifyFetched backend partition block j).1.1.verdict =
      (Finding.passed Layer.blockSignatures.name).verdict := by
  change (Commit.fetchedFinding partition block
    ((Commit.fetch backend partition block.height).run j).1).2 = _ at final
  change (Commit.fetchedFinding partition block
    ((Commit.fetch backend partition block.height).run j).1).1.verdict = _
  cases fetched : ((Commit.fetch backend partition block.height).run j).1 with
  | error cause =>
    rw [fetched] at final
    cases final
  | ok data =>
    rw [fetched] at final
    exact verdict_of_verify final

theorem verifySignatures_follows {block : Block}
    (known : answers (.block v.authority block.height) = .ok block) :
    Follows (Faithful v answers) (fun a b => a.1.verdict = b.1.verdict ∧ a.2 = b.2)
      (verifySignatures (.fixed answers) now v.authority block)
      (Uncached.verifySignatures (.fixed answers) v.authority block) := by
  have fetched : Follows (Faithful v answers)
      (fun a b : Finding × Option Finality => a.1.verdict = b.1.verdict ∧ a.2 = b.2)
      (fetchSignatures (.fixed answers) now v.authority block)
      (Commit.verifyFetched (.fixed answers) v.authority block) := fun s h => by
    obtain ⟨same, kept⟩ := fetchSignatures_follows now known s h
    exact ⟨⟨by rw [same], by rw [same]⟩, kept⟩
  unfold verifySignatures Uncached.verifySignatures
  cases HeaderTree.checkAppHash block with
  | error f => exact .pure ⟨rfl, rfl⟩
  | ok _ =>
    refine .lookup_bind (fun f kept => ?_) fetched
    dsimp only
    split
    · have final := kept block rfl known
      exact .pure ⟨(verdict_of_verifyFetched final).symm, final.symm⟩
    · exact fetched

theorem signed_of_verifySignatures {block : Block} {f : Finality}
    (known : answers (.block v.authority block.height) = .ok block)
    (final : (Uncached.verifySignatures (.fixed answers) v.authority block []).1.2 = some f) :
    Signed v answers f := by
  refine ⟨block, known, ?_⟩
  unfold Uncached.verifySignatures at final
  cases checked : HeaderTree.checkAppHash block with
  | error cause =>
    rw [checked] at final
    cases final
  | ok _ =>
    rw [checked] at final
    exact final

theorem verifyGenesis_follows {f : Finality} (signed : Signed v answers f) :
    Follows (Faithful v answers) (SameResult fun a b => a.verdict = b.verdict ∧ a.valid = b.valid)
      (v.verifyGenesis (.fixed answers) now f) (Uncached.verifyGenesis v (.fixed answers) f) := by
  refine .lookup_bind (fun trace kept => .pure ?_) ?_
  · unfold Uncached.verifyGenesis
    rw [Journal.bind_apply, kept f signed rfl]
    exact .ok ⟨trace.finding.verdict_withDetail _ _, rfl⟩
  · refine (Follows.asking (traceGenesis_asks _ _)).bind answers (fun result => ?_) ?_
    · cases result <;> exact .pure _
    · rintro result rfl
      cases traced : ((v.traceGenesis (.fixed answers) f.validators f.blockHeight).run []).1 with
      | ok trace =>
        exact .remember_bind (faithful_trace signed traced) (.pure (.ok ⟨rfl, rfl⟩))
      | error cause =>
        unfold Uncached.untraced
        dsimp only
        split
        · exact .pure (.error _)
        · exact .pure (.ok ⟨rfl, rfl⟩)

theorem runSigned_follows {o o' : Outcome} {block : Block} (alike : o.Alike o')
    (known : answers (.block v.authority block.height) = .ok block) :
    Follows (Faithful v answers) (SameResult Outcome.Alike)
      (v.runSigned (.fixed answers) now o v.authority block)
      (Uncached.runSigned v (.fixed answers) o' v.authority block) := by
  refine (verifySignatures_follows known).bind answers (fun ⟨finding, finality?⟩ => ?_) ?_
  · cases finality? with
    | none => exact .pure _
    | some f =>
      refine (Uncached.verifyGenesis_asks v _ f).bind fun result => ?_
      cases result <;> exact .pure _
  · intro h
    obtain ⟨finding, finality?⟩ := h
    have signed {f : Finality} := signed_of_verifySignatures (f := f) known
    generalize (Uncached.verifySignatures (.fixed answers) v.authority block []).1 =
      other at signed ⊢
    obtain ⟨finding', finality'?⟩ := other
    intro h
    obtain ⟨verdict, same⟩ := h
    obtain rfl : finality? = finality'? := same
    have anchored : ({ o with anchored := true }.record finding).Alike
        ({ o' with anchored := true }.record finding') :=
      Outcome.Alike.record ⟨alike.recorded, alike.skipped, alike.inclusion, alike.finality,
        alike.included, rfl, alike.signed, alike.traced⟩ verdict
    cases finality? with
    | none => exact .pure (.ok (anchored.stopAfter _ _))
    | some f =>
      refine (verifyGenesis_follows (signed rfl)).bind answers (fun result => ?_) ?_
      · cases result <;> exact .pure _
      · intro result agreed
        generalize (Uncached.verifyGenesis v (.fixed answers) f []).1 = other at agreed ⊢
        cases agreed with
        | error cause => exact .pure (.error cause)
        | ok same =>
          exact .pure (.ok (.record ⟨anchored.recorded, anchored.skipped, anchored.inclusion, rfl,
            anchored.included, rfl, rfl, same.2⟩ same.1))

theorem runAnchored_follows {o o' : Outcome} {home : Url} {root : Hash} {block : Block}
    (alike : o.Alike o') (known : answers (.block home block.height) = .ok block) :
    Follows (Faithful v answers) (SameResult Outcome.Alike)
      (v.runAnchored (.fixed answers) now o home root block)
      (Uncached.runAnchored v (.fixed answers) o' home root block) := by
  unfold runAnchored Uncached.runAnchored
  by_cases own : home = v.authority
  · have free : ¬ v.anchoring.requiresAnchor home = true := fun needs =>
      requiresAnchor_iff.1 needs own
    rw [if_neg free, if_neg free, own]
    exact runSigned_follows (alike.record rfl) (own ▸ known)
  · have bound := requiresAnchor_iff.2 own
    rw [if_pos bound, if_pos bound]
    refine (Follows.asking Anchoring.verifyAnchor_asks).bind answers
      (fun ⟨finding, anchored?⟩ => ?_) ?_
    · cases anchored? with
      | none => exact .pure _
      | some anchored => exact Uncached.runSigned_asks v _ _ _ _
    · rintro result rfl
      have committed {anchored : AnchoredRoot}
          (found : (v.anchoring.verifyAnchor (.fixed answers) home root []).1.2 = some anchored) :=
        Uncached.verifyAnchor_fixed.1 ⟨anchored, found, rfl⟩
      generalize (v.anchoring.verifyAnchor (.fixed answers) home root []).1 = result at committed ⊢
      obtain ⟨finding, anchored?⟩ := result
      cases anchored? with
      | none => exact .pure (.ok ((alike.record rfl).stopAfter _ _))
      | some anchored =>
        obtain ⟨_, -, -, commits⟩ := committed rfl
        exact runSigned_follows (alike.record rfl) commits.known

theorem runCommitted_follows {o : Outcome} {p : Inclusion} :
    Follows (Faithful v answers) (SameResult Outcome.Alike)
      (v.runCommitted (.fixed answers) now o p) (Uncached.runCommitted v (.fixed answers) o p) := by
  unfold runCommitted Uncached.runCommitted
  cases Url.parse p.sourcePartition with
  | error e => exact .pure (.ok (.refl _))
  | ok home =>
    refine (Follows.asking (Anchoring.verifyState_asks home p.localBlock)).bind answers
      (fun ⟨finding, block?⟩ => ?_) ?_
    · cases block? with
      | none => exact .pure _
      | some block => exact Uncached.runAnchored_asks v _ _ _ _ _
    · rintro result rfl
      have committed {block : Block} :
          (Anchoring.verifyState (.fixed answers) home p.anchor p.localBlock []).1.2 =
            some block ↔ _ :=
        Uncached.verifyState_fixed
      generalize (Anchoring.verifyState (.fixed answers) home p.anchor p.localBlock []).1 = result
        at committed ⊢
      obtain ⟨finding, block?⟩ := result
      cases block? with
      | none => exact .pure (.ok (.refl _))
      | some block => exact runAnchored_follows (.refl _) (committed.1 rfl).known

theorem runLayers_follows (account : Url) :
    Follows (Faithful v answers) (SameResult Outcome.Alike)
      (v.runLayers (.fixed answers) now account)
        (Uncached.runLayers v (.fixed answers) account) := by
  refine (findInclusion_follows account).bind answers (fun result => ?_) ?_
  · cases result with
    | error f => exact .pure _
    | ok p =>
      dsimp only
      split
      · exact Uncached.runCommitted_asks v _ _ p
      · exact .pure _
  · rintro result rfl
    cases found : ((Uncached.findInclusion v (.fixed answers) account).run []).1 with
    | error f =>
      unfold Uncached.unincluded
      dsimp only
      split
      · exact .pure (.error f)
      · exact .pure (.ok (.refl _))
    | ok p =>
      dsimp only
      split
      · have receipt : Faithful v answers .receipts
          (positionKey p.scope p.chain p.index) p.receipt :=
          trivial
        exact fun s h => runCommitted_follows ⟨(s.cache.store .receipts _ p.receipt now none).store
          .inclusions _ p now none, s.journal⟩ ((h.store receipt).store (faithful_inclusion found))
      · exact .pure (.ok (.refl _))

variable (now) in
/-- A verification with a faithful cache comes to what one without a cache comes to at any time. -/
theorem verifyAccount_follows (account : String) (later : UInt64) :
    Follows (Faithful v answers) (SameResult Report.Alike)
      (v.verifyAccount (.fixed answers) now account)
      (Uncached.verifyAccount v (.fixed answers) later account) := by
  unfold verifyAccount unlessReported Uncached.verifyAccount
  cases Url.parse account with
  | error e => exact .pure (.error _)
  | ok account =>
    refine .lookup_bind (fun r kept => .pure ?_) ?_
    · obtain ⟨o, ran, alike⟩ := kept account rfl
      dsimp only
      rw [Journal.bind_apply, ran]
      exact .ok (alike.trans ((Outcome.Alike.refl o).report 0 later account))
    · refine (runLayers_follows account).bind answers (fun result => ?_) ?_
      · cases result <;> exact .pure _
      · intro result agreed
        cases ran : (Uncached.runLayers v (.fixed answers) account []).1 with
        | error f =>
          rw [ran] at agreed
          cases agreed
          exact .pure (.error f)
        | ok o =>
          rw [ran] at agreed
          cases agreed with
          | ok alike =>
            dsimp only
            split
            · refine .remember_bind ?_ (.pure (.ok (alike.report now later account)))
              intro other same
              obtain rfl := Url.text_injective same
              exact ⟨o, ran, alike.report now 0 account⟩
            · exact .pure (.ok (alike.report now later account))

end

end Verifier

namespace Session
open Verifier

/-- Whatever one verifier has done with a cache and whatever has been dropped from it since, each
value that is left is what asking again leads to. -/
theorem run_faithful (v : Verifier) (answers : (query : Query) → Except QueryError query.Answer)
    (settings : CacheConfig) (now : UInt64) (actions : List (Action Unit)) :
    ((start settings now).run (fun _ => ⟨v, .fixed answers⟩) actions).state.cache.Holds
      (Faithful v answers) := by
  refine run_keeps (fun s => s.cache.Holds (Faithful v answers)) (fun s caller account h => ?_)
    (fun _ _ fewer h => h.of_subset fewer) (Cache.holds_empty settings) actions
  rw [verify_state]
  exact (verifyAccount_follows s.now account s.now s.state h).2.1

/-- A verification with a used cache fails for the same cause or reports the same as one with an
empty cache, and asks some of the same in the same order. -/
theorem verify_agrees_with_cold (v : Verifier)
    (answers : (query : Query) → Except QueryError query.Answer)
    (settings coldSettings : CacheConfig)
    (first coldNow : UInt64) (actions : List (Action Unit)) (account : String) :
    let caller : Caller := ⟨v, .fixed answers⟩
    let warm := (start settings first).run (fun _ => caller) actions
    let cold := start coldSettings coldNow
    SameResult Report.Alike (warm.verify caller account).1 (cold.verify caller account).1 ∧
      ∃ asked, (warm.verify caller account).2.state.journal = warm.state.journal ++ asked ∧
        asked.Sublist (cold.verify caller account).2.state.journal := by
  intro caller warm cold
  obtain ⟨result, journal, -⟩ := verifyAccount_agrees v (.fixed answers) coldNow account cold.state
    (Cache.holds_empty coldSettings)
  obtain ⟨same, -, asked, grown, fewer⟩ := verifyAccount_follows warm.now account coldNow warm.state
    (run_faithful v answers settings first actions)
  exact ⟨result ▸ same, asked, grown, journal ▸ fewer⟩

end Session

end LightClient
