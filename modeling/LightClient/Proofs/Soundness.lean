import LightClient.Proofs.Evidence
import LightClient.Proofs.Keys
import LightClient.Proofs.Sample

/-!
# Evidence behind every verified report

Several verifiers with the same settings use one cache, and their backends answer as they like, each
query anew. Then for every value in the cache there is evidence among what has been answered so far:
it may have been gathered for another caller and in several verifications, but all of it has been
checked. The genesis at which it ends is that of some verifier; only the walk from genesis depends
on it.
-/
namespace LightClient

namespace Verifier

section
variable (told : (query : Query) → Except QueryError query.Answer → Prop) (a : Anchoring)

/-- Blocks lead from the anchor of an inclusion to an authority block. -/
def Linked (p : Inclusion) (block : Block) : Prop :=
  ∃ home homeBlock, Url.parse p.sourcePartition = .ok home ∧
    Commits told home p.localBlock p.anchor homeBlock ∧ Route told a home p.anchor homeBlock block

/-- A finality is that of a block whose header holds the application hash. The record of the block
that was signed may be another one with the same hash. -/
structure Seals (block : Block) (f : Finality) : Prop where
  header : HeaderTree.committedRoot? block = some block.blockHash
  blockHash : f.blockHash = block.blockHash
  blockHeight : f.blockHeight.toInt = block.height.toNat
  certified : ∃ signed commit, Certified told a.authority signed commit f

/-- Handovers lead from a genesis to the validators of a finality. A walk that is kept is known by
the digest of the set, so it may be the walk to another set with this digest. -/
def Rooted (roots : Genesis → Prop) (f : Finality) : Prop :=
  ∃ genesis set handovers trace, roots genesis ∧
    Descends told genesis a.algorithm set f.blockHeight handovers trace ∧
    a.algorithm.digest (Validator.encodeSet set) =
      a.algorithm.digest (Validator.encodeSet f.validators)

/-- What stands behind a verified report on an account. -/
structure Proven (chain : String) (roots : Genesis → Prop) (account : Url) (p : Inclusion)
    (f : Finality) : Prop where
  scope : p.scope = account
  chain : p.chain = chain
  holds : p.Holds a.algorithm
  sealed : ∃ block, Linked told a p block ∧ Seals told a block f
  rooted : Rooted told a roots f

end

section
variable {told told' : (query : Query) → Except QueryError query.Answer → Prop} {a : Anchoring}
  (more : ∀ query result, told query result → told' query result)
include more

theorem Commits.mono {partition : Url} {height : UInt64} {root : Hash} {block : Block}
    (h : Commits told partition height root block) : Commits told' partition height root block :=
  ⟨more _ _ h.answer, h.height, h.appHash⟩

theorem FirstFound.mono {source authority : Url} {root : Hash} {anchor : Anchor}
    (h : FirstFound told source authority root anchor) :
    FirstFound told' source authority root anchor := by
  cases h with
  | intermediate found => exact .intermediate (more _ _ found)
  | authorityChain unknown found => exact .authorityChain (more _ _ unknown) (more _ _ found)

theorem Route.mono {home : Url} {root : Hash} {homeBlock block : Block}
    (h : Route told a home root homeBlock block) : Route told' a home root homeBlock block := by
  cases h with
  | own authority => exact .own authority
  | anchored other first accepts commits =>
    exact .anchored other (first.mono more) accepts (commits.mono more)

theorem Certified.mono {authority : Url} {block : Block} {commit : Commit} {f : Finality}
    (h : Certified told authority block commit f) : Certified told' authority block commit f :=
  ⟨more _ _ h.members, h.someMember, more _ _ h.signatures, h.someSignature, h.final⟩

theorem Descends.mono {genesis : Genesis} {algorithm : HashAlgorithm} {set : List Validator}
    {height : Int64} {handovers : List Handover} {trace : GenesisTrace}
    (h : Descends told genesis algorithm set height handovers trace) :
    Descends told' genesis algorithm set height handovers trace := ⟨more _ _ h.answer, h.reaches⟩

theorem Linked.mono {p : Inclusion} {block : Block} (h : Linked told a p block) :
    Linked told' a p block := by
  obtain ⟨home, homeBlock, parsed, commits, route⟩ := h
  exact ⟨home, homeBlock, parsed, commits.mono more, route.mono more⟩

theorem Seals.mono {block : Block} {f : Finality} (h : Seals told a block f) :
    Seals told' a block f := by
  obtain ⟨header, blockHash, blockHeight, signed, commit, certified⟩ := h
  exact ⟨header, blockHash, blockHeight, signed, commit, certified.mono more⟩

theorem Rooted.mono {roots roots' : Genesis → Prop} {f : Finality} (wider : ∀ g, roots g → roots' g)
    (h : Rooted told a roots f) : Rooted told' a roots' f := by
  obtain ⟨genesis, set, handovers, trace, root, descends, digest⟩ := h
  exact ⟨genesis, set, handovers, trace, wider _ root, descends.mono more, digest⟩

theorem Proven.mono {chain : String} {roots roots' : Genesis → Prop} {account : Url} {p : Inclusion}
    {f : Finality} (wider : ∀ g, roots g → roots' g) (h : Proven told a chain roots account p f) :
    Proven told' a chain roots' account p f := by
  obtain ⟨scope, ofChain, holds, ⟨block, linked, seals⟩, rooted⟩ := h
  exact ⟨scope, ofChain, holds, ⟨block, linked.mono more, seals.mono more⟩, rooted.mono more wider⟩

end

section
variable (geneses : Genesis → Prop) (a : Anchoring) (chain : String)

/-- What a value in the cache stands for, once the queries in a journal have been answered. -/
def Kept (j : Journal) : (t : Cache.Table) → String → t.Value → Prop
  | .reports, key, r => r.verified = true ∧ r.account.text = key ∧ ∃ p f,
      r.inclusion = some p ∧ r.finality = some f ∧ Proven j.Told a chain geneses r.account p f
  | .receipts, _, r => r.Replays a.algorithm
  | .inclusions, key, p =>
      key = positionKey p.scope p.chain p.index ∧ p.chain = chain ∧ p.Holds a.algorithm
  | .finalities, key, f => ∃ height, key = blockKey a.authority height ∧
      f.blockHeight.toInt = height.toNat ∧
      ∃ signed commit, Certified j.Told a.authority signed commit f
  | .traces, key, t => ∃ (w : Verifier) (set : List Validator) (height : Int64)
      (handovers : List Handover), geneses w.genesis ∧ w.config.algorithm = a.algorithm ∧
      key = w.traceKey height set ∧ Descends j.Told w.genesis a.algorithm set height handovers t

theorem Kept.mono {j j' : Journal} (grown : j <+: j') (t : Cache.Table) (key : String)
    (value : t.Value) (h : Kept geneses a chain j t key value) :
    Kept geneses a chain j' t key value := by
  have more : ∀ query result, j.Told query result → j'.Told query result :=
    fun _ _ told => told.mono grown
  cases t with
  | reports =>
    obtain ⟨verified, own, p, f, inclusion, finality, proven⟩ := h
    exact ⟨verified, own, p, f, inclusion, finality, proven.mono more fun _ root => root⟩
  | receipts => exact h
  | inclusions => exact h
  | finalities =>
    obtain ⟨height, own, same, signed, commit, certified⟩ := h
    exact ⟨height, own, same, signed, commit, certified.mono more⟩
  | traces =>
    obtain ⟨w, set, height, handovers, root, algorithm, own, descends⟩ := h
    exact ⟨w, set, height, handovers, root, algorithm, own, descends.mono more⟩

/-- Run after the journal `j` with a cache that only keeps what it may, a step ends with such a
cache and with a result that satisfies `Post` in view of what has been answered by then. -/
def Assures {α : Type} (j : Journal) (m : StateM State α) (Post : α → Journal → Prop) : Prop :=
  ∀ s : State, j <+: s.journal → s.cache.Holds (Kept geneses a chain s.journal) →
    s.journal <+: (m s).2.journal ∧
    (m s).2.cache.Holds (Kept geneses a chain (m s).2.journal) ∧ Post (m s).1 (m s).2.journal

end

namespace Assures
variable {geneses : Genesis → Prop} {a : Anchoring} {chain : String} {α β : Type} {j : Journal}
  {now : UInt64} {t : Cache.Table} {key : String} {Mid : α → Journal → Prop}
  {Post : β → Journal → Prop}

theorem pure {b : β} (h : ∀ j', j <+: j' → Post b j') : Assures geneses a chain j (pure b) Post :=
  fun s grown kept => ⟨List.prefix_refl _, kept, h s.journal grown⟩

theorem weaken {m : StateM State β} {Post' : β → Journal → Prop}
    (first : Assures geneses a chain j m Post') (h : ∀ b j', j <+: j' → Post' b j' → Post b j') :
    Assures geneses a chain j m Post := fun s grown kept => by
  obtain ⟨more, kept, post⟩ := first s grown kept
  exact ⟨more, kept, h _ _ (grown.trans more) post⟩

theorem asking {backend : Backend} {u : StateM Journal β} (asks : Asks backend u)
    (h : ∀ j', j <+: j' → Post (u j').1 (u j').2) : Assures geneses a chain j (asking u) Post :=
  fun s grown kept => ⟨asks.grows s.journal, kept.mono (Kept.mono _ _ _ (asks.grows s.journal)),
    h s.journal grown⟩

theorem bind {m : StateM State α} {f : α → StateM State β} (first : Assures geneses a chain j m Mid)
    (next : ∀ x j', j <+: j' → Mid x j' → Assures geneses a chain j' (f x) Post) :
    Assures geneses a chain j (m >>= f) Post := fun s grown kept => by
  obtain ⟨more, kept, mid⟩ := first s grown kept
  obtain ⟨later, kept, post⟩ :=
    next (m s).1 _ (grown.trans more) mid (m s).2 (List.prefix_refl _) kept
  exact ⟨more.trans later, kept, post⟩

/-- What is asked is in the journal from then on. -/
theorem asking_bind {backend : Backend} {u : StateM Journal α} {f : α → StateM State β}
    (asks : Asks backend u)
    (next : ∀ j', j <+: j' → Assures geneses a chain (u j').2 (f (u j').1) Post) :
    Assures geneses a chain j (Verifier.asking u >>= f) Post := fun s grown kept => by
  have more := asks.grows s.journal
  obtain ⟨later, kept, post⟩ := next s.journal grown ⟨s.cache, (u s.journal).2⟩ (List.prefix_refl _)
    (kept.mono (Kept.mono _ _ _ more))
  exact ⟨more.trans later, kept, post⟩

theorem lookup_bind {f : Option t.Value → StateM State β}
    (hit : ∀ value j', j <+: j' → Kept geneses a chain j' t key value →
      Assures geneses a chain j' (f (some value)) Post)
    (miss : Assures geneses a chain j (f none) Post) :
    Assures geneses a chain j (lookup now t key >>= f) Post := fun s grown kept => by
  rw [lookup_bind_apply]
  cases found : s.cache.peek? t key now with
  | none => exact miss ⟨(s.cache.get t key now).2, s.journal⟩ grown kept.get
  | some value =>
    exact hit value s.journal grown (kept.of_peek? found) ⟨(s.cache.get t key now).2, s.journal⟩
      (List.prefix_refl _) kept.get

theorem remember_bind {value : t.Value} {m : StateM State β}
    (holds : Kept geneses a chain j t key value) (next : Assures geneses a chain j m Post) :
    Assures geneses a chain j (remember now t key value >>= fun _ => m) Post :=
  fun s grown kept => next ⟨s.cache.store t key value now none, s.journal⟩ grown
    (kept.store (Kept.mono _ _ _ grown _ _ _ holds))

theorem rememberInclusion_bind {p : Inclusion} {m : StateM State β} (named : p.chain = chain)
    (holds : p.Holds a.algorithm) (next : Assures geneses a chain j m Post) :
    Assures geneses a chain j (rememberInclusion now p >>= fun _ => m) Post :=
  fun s grown kept => by
  have receipt : Kept geneses a chain s.journal .receipts (positionKey p.scope p.chain p.index)
      p.receipt := holds.replays
  exact next ⟨(s.cache.store .receipts _ p.receipt now none).store .inclusions _ p now none,
    s.journal⟩
    grown ((kept.store receipt).store ⟨rfl, named, holds⟩)

end Assures

section
variable {geneses : Genesis → Prop} {chain : String} {v : Verifier}
  {backend : Backend} {j : Journal} {now : UInt64}

theorem locateInclusion_assures (account : Url) :
    Assures geneses v.anchoring v.config.chain j (v.locateInclusion backend now account)
      fun result _ => ∀ located, result = .ok located →
        located.1.scope = account ∧ located.1.chain = v.config.chain := by
  refine .asking_bind (Asks.ask _ _) fun j₁ _ => ?_
  cases ((backend.ask _ (.chainHead account v.config.chain)).run j₁).1 with
  | error f => exact .pure fun _ _ _ same => nomatch same
  | ok index =>
    refine .lookup_bind (fun p _ _ kept => .pure fun _ _ _ same => ?_)
      (.asking_bind (Inclusion.build_asks _ _ _ index) fun j₂ _ => .pure fun _ _ _ same => ?_)
    · obtain rfl := Except.ok.inj same
      obtain ⟨own, named, -⟩ := kept
      rw [named] at own
      exact ⟨(positionKey_injective own).1.symm, named⟩
    · obtain ⟨p, built, rfl⟩ := Failure.map_eq_ok.1 same
      obtain ⟨scope, named, -⟩ := Inclusion.position_of_build built
      exact ⟨scope, named⟩

theorem findInclusion_assures (account : Url) :
    Assures geneses v.anchoring v.config.chain j (v.findInclusion backend now account)
      fun result _ => ∀ p, result = .ok p → p.scope = account ∧ p.chain = v.config.chain := by
  refine .bind (locateInclusion_assures account) fun located j₁ _ position =>
    .pure fun _ _ p same => ?_
  obtain ⟨found, rfl, rfl⟩ := Failure.map_eq_ok.1 same
  exact position found rfl

theorem fetchSignatures_assures {block : Block}
    (header : HeaderTree.committedRoot? block = some block.blockHash) :
    Assures geneses v.anchoring chain j (fetchSignatures backend now v.authority block)
      fun result j' => ∀ f, result.2 = some f → Seals j'.Told v.anchoring block f := by
  refine .asking_bind (Commit.verifyFetched_asks block) fun j₁ _ => ?_
  cases found : (Commit.verifyFetched backend v.authority block j₁).1 with
  | mk finding finality? =>
    cases finality? with
    | none => exact .pure fun _ _ f same => nomatch same
    | some f =>
      obtain ⟨commit, fetched, final⟩ := Commit.verifyFetched_eq_some.1 (congrArg Prod.snd found)
      obtain ⟨⟨between, members, signatures⟩, someMember, someSignature⟩ :=
        Commit.fetch_yields.1 (Inquiry.yields_iff.2 ⟨fetched, rfl⟩)
      have certified : Certified
          (Journal.Told (Commit.verifyFetched backend v.authority block j₁).2)
          v.authority block commit f :=
        ⟨members.told.mono signatures.grown, someMember, signatures.told, someSignature, final⟩
      refine .remember_bind ⟨block.height, rfl, final.blockHeight, block, commit, certified⟩
        (.pure fun j₂ grown g same => ?_)
      obtain rfl := Option.some.inj same
      exact ⟨header, final.blockHash, final.blockHeight, block, commit,
        certified.mono fun _ _ told => told.mono grown⟩

theorem verifySignatures_assures {block : Block} :
    Assures geneses v.anchoring chain j (verifySignatures backend now v.authority block)
      fun result j' => ∀ f, result.2 = some f → Seals j'.Told v.anchoring block f := by
  unfold verifySignatures
  cases checked : HeaderTree.checkAppHash block with
  | error cause => exact .pure fun _ _ f same => nomatch same
  | ok _ =>
    have header := HeaderTree.checkAppHash_eq_ok.1 checked
    refine .lookup_bind (fun f j₁ _ kept => ?_) (fetchSignatures_assures header)
    dsimp only
    split
    · rename_i vouches
      -- The key gives the height, but the hash is only that of this block because it is compared
      -- again.
      obtain ⟨height, own, sameHeight, signed, commit, certified⟩ := kept
      obtain ⟨-, rfl⟩ := blockKey_injective own
      refine .pure fun j₂ grown g same => ?_
      obtain rfl := Option.some.inj same
      exact ⟨header, vouches.1, sameHeight, signed, commit,
        certified.mono fun _ _ told => told.mono grown⟩
    · exact fetchSignatures_assures header

theorem verifyGenesis_assures {f : Finality} (member : geneses v.genesis) :
    Assures geneses v.anchoring chain j (v.verifyGenesis backend now f) fun result j' =>
      ∀ finding, result = .ok finding → finding.valid = true →
        Rooted j'.Told v.anchoring (fun g => geneses g ∧ g.hash = v.genesis.hash) f := by
  refine .lookup_bind (fun trace j₁ _ kept => .pure fun j₂ grown _ _ _ => ?_) ?_
  · obtain ⟨w, set, height, handovers, root, algorithm, own, descends⟩ := kept
    obtain ⟨hash, rfl, digest⟩ := traceKey_injective own
    rw [algorithm] at digest
    exact ⟨w.genesis, set, handovers, trace, ⟨root, hash.symm⟩,
      descends.mono fun _ _ told => told.mono grown, digest.symm⟩
  · refine .asking_bind (traceGenesis_asks _ _) fun j₁ _ => ?_
    cases traced : ((v.traceGenesis backend f.validators f.blockHeight).run j₁).1 with
    | ok trace =>
      obtain ⟨handovers, answer, reaches⟩ :=
        traceGenesis_yields.1 (Inquiry.yields_iff.2 ⟨traced, rfl⟩)
      refine .remember_bind
        ⟨v, f.validators, f.blockHeight, handovers, member, rfl, rfl, answer.told, reaches⟩
          (.pure fun j₂ grown _ _ _ => ?_)
      exact ⟨v.genesis, f.validators, handovers, trace, ⟨member, rfl⟩,
        ⟨answer.told.mono grown, reaches⟩, rfl⟩
    | error cause =>
      dsimp only
      split
      · exact .pure fun _ _ _ same => nomatch same
      · refine .pure fun _ _ finding same valid => ?_
        obtain rfl := Except.ok.inj same
        cases valid

/-- An anchor that was found was the first one, is accepted, and leads to the authority block. -/
theorem route_of_find {home : Url} {root : Hash} {j' : Journal} {anchored : AnchoredRoot}
    (h : (v.anchoring.find backend home root).Yields j anchored j') :
    FirstFound j'.Told home v.authority root anchored.anchor ∧
      v.anchoring.Accepts anchored.anchor home root ∧
      Commits j'.Told v.authority anchored.anchor.receipt.localBlock anchored.anchor.receipt.anchor
        anchored.authorityBlock := by
  obtain ⟨anchor, block, search⟩ := anchored
  obtain ⟨between, found, accepts, answer, height, commits⟩ := Anchoring.findIn_yields.1 h
  refine ⟨?_, accepts, answer.told, height, commits⟩
  cases found with
  | here found => exact .intermediate (found.told.mono answer.grown)
  | later unknown found =>
    cases found with
    | here found =>
      exact .authorityChain ((Journal.told_append j _ _).mono (found.grown.trans answer.grown))
        (found.told.mono answer.grown)
    | later _ found => cases found

/-- If the last layer holds at the end of a run, the run has the finality of an authority block that
`leads` tells of, and keeps the inclusion it started with. -/
def Ends (geneses : Genesis → Prop) (v : Verifier) (leads : Journal → Block → Prop) (o : Outcome)
    (result : Except Failure Outcome) (j : Journal) : Prop :=
  ∀ o', result = .ok o' → o'.traced = true → o'.inclusion = o.inclusion ∧
    ∃ block f, leads j block ∧ o'.finality = some f ∧ Seals j.Told v.anchoring block f ∧
      Rooted j.Told v.anchoring (fun g => geneses g ∧ g.hash = v.genesis.hash) f

theorem ends_of_untraced {leads : Journal → Block → Prop} {o o' : Outcome}
    (start : o'.traced = false) : Ends geneses v leads o (.ok o') j := fun _ same traced => by
  obtain rfl := Except.ok.inj same
  rw [start] at traced
  cases traced

theorem runSigned_assures {o : Outcome} {block : Block} (member : geneses v.genesis)
    (start : o.traced = false) :
    Assures geneses v.anchoring chain j (v.runSigned backend now o v.authority block)
      (Ends geneses v (fun _ b => b = block) o) := by
  refine verifySignatures_assures.bind fun ⟨finding, finality?⟩ j₁ _ seals => ?_
  cases finality? with
  | none => exact .pure fun _ _ => ends_of_untraced start
  | some f =>
    refine (verifyGenesis_assures member).bind fun result j₂ grown rooted => ?_
    cases result with
    | error cause => exact .pure fun _ _ _ same => nomatch same
    | ok found =>
      refine .pure fun j₃ later o' same traced => ?_
      obtain rfl := Except.ok.inj same
      refine ⟨rfl, block, f, rfl, rfl, (seals f rfl).mono fun _ _ told => ?_,
        (rooted found rfl traced).mono (fun _ _ told => told.mono later) fun _ root => root⟩
      exact told.mono (grown.trans later)

theorem runAnchored_assures {o : Outcome} {home : Url} {root : Hash} {homeBlock : Block}
    (member : geneses v.genesis) (start : o.traced = false) :
    Assures geneses v.anchoring chain j (v.runAnchored backend now o home root homeBlock)
      (Ends geneses v (fun j' b => Route j'.Told v.anchoring home root homeBlock b) o) := by
  unfold runAnchored
  by_cases own : home = v.authority
  · have free : ¬ v.anchoring.requiresAnchor home = true := fun needs =>
      requiresAnchor_iff.1 needs own
    rw [if_neg free]
    subst own
    refine (runSigned_assures (o := o.record (anchorNotRequired v.authority)) member start).weaken
      ?_
    intro result j₁ _ ends o' same traced
    obtain ⟨inclusion, block, f, rfl, rest⟩ := ends o' same traced
    exact ⟨inclusion, block, f, .own rfl, rest⟩
  · have bound := requiresAnchor_iff.2 own
    rw [if_pos bound]
    refine .asking_bind Anchoring.verifyAnchor_asks fun j₁ _ => ?_
    cases found : (v.anchoring.verifyAnchor backend home root j₁).1 with
    | mk finding anchored? =>
      cases anchored? with
      | none => exact .pure fun _ _ => ends_of_untraced start
      | some anchored =>
        have run := Anchoring.verifyAnchor_eq_some.1 (congrArg Prod.snd found)
        obtain ⟨first, accepts, commits⟩ := route_of_find (Inquiry.yields_iff.2 ⟨run, rfl⟩)
        refine (runSigned_assures (o := o.record finding) member start).weaken ?_
        intro result j₂ grown ends o' same traced
        obtain ⟨inclusion, block, f, rfl, rest⟩ := ends o' same traced
        have more : ∀ query result, Journal.Told (v.anchoring.verifyAnchor backend home root j₁).2
            query result → Journal.Told j₂ query result := fun _ _ told => told.mono grown
        exact ⟨inclusion, _, f, .anchored own (first.mono more) accepts (commits.mono more), rest⟩

theorem runCommitted_assures {o : Outcome} {p : Inclusion} (member : geneses v.genesis)
    (start : o.traced = false) :
    Assures geneses v.anchoring chain j (v.runCommitted backend now o p)
      (Ends geneses v (fun j' b => Linked j'.Told v.anchoring p b) o) := by
  unfold runCommitted
  cases parsed : Url.parse p.sourcePartition with
  | error e => exact .pure fun _ _ => ends_of_untraced start
  | ok home =>
    refine .asking_bind (Anchoring.verifyState_asks home p.localBlock) fun j₁ _ => ?_
    cases found : (Anchoring.verifyState backend home p.anchor p.localBlock j₁).1 with
    | mk finding block? =>
      cases block? with
      | none => exact .pure fun _ _ => ends_of_untraced start
      | some homeBlock =>
        have run := Anchoring.verifyState_eq_some.1 (congrArg Prod.snd found)
        obtain ⟨answer, height, appHash⟩ :=
          Anchoring.stateCommitment_yields.1 (Inquiry.yields_iff.2 ⟨run, rfl⟩)
        refine (runAnchored_assures (o := o.record finding) member start).weaken ?_
        intro result j₂ grown ends o' same traced
        obtain ⟨inclusion, block, f, route, rest⟩ := ends o' same traced
        exact ⟨inclusion, block, f,
          ⟨home, homeBlock, parsed, ⟨answer.told.mono grown, height, appHash⟩, route⟩, rest⟩

theorem runLayers_assures {account : Url} (member : geneses v.genesis) :
    Assures geneses v.anchoring v.config.chain j (v.runLayers backend now account) fun result j' =>
      ∀ o, result = .ok o → o.traced = true → ∃ p f, o.inclusion = some p ∧ o.finality = some f ∧
        Proven j'.Told v.anchoring v.config.chain
          (fun g => geneses g ∧ g.hash = v.genesis.hash) account p f := by
  refine (findInclusion_assures account).bind fun result j₁ _ position => ?_
  cases result with
  | error cause =>
    dsimp only
    split
    · exact .pure fun _ _ _ same => nomatch same
    · refine .pure fun _ _ o same traced => ?_
      obtain rfl := Except.ok.inj same
      cases traced
  | ok p =>
    obtain ⟨scope, named⟩ := position p rfl
    dsimp only
    split
    · rename_i valid
      have holds := Inclusion.finding_valid.1 valid
      refine .rememberInclusion_bind named holds ((runCommitted_assures member rfl).weaken ?_)
      intro result j₂ _ ends o same traced
      obtain ⟨inclusion, block, f, linked, finality, seals, rooted⟩ := ends o same traced
      exact ⟨p, f, inclusion, finality, scope, named, holds, ⟨block, linked, seals⟩, rooted⟩
    · refine .pure fun _ _ o same traced => ?_
      obtain rfl := Except.ok.inj same
      cases traced

/-- The run of the layers and the report on it, which is kept if it is verified. -/
def reportLayers (v : Verifier) (backend : Backend) (now : UInt64) (account : Url) :
    StateM State (Except Failure Report) := do
  match ← v.runLayers backend now account with
  | .error f => return .error f
  | .ok o =>
    let report := report now account o
    if report.verified then
      remember now .reports account.text report
      return .ok report
    else return .ok report

theorem verifyAccount_eq {account : String} {u : Url} (parsed : Url.parse account = .ok u) :
    v.verifyAccount backend now account = lookup now .reports u.text >>= fun
      | some r => Pure.pure (Except.ok r)
      | none => reportLayers v backend now u := by
  unfold verifyAccount unlessReported
  rw [parsed]
  rfl

/-- A verified report on an account is proven. -/
def Reports (told : (query : Query) → Except QueryError query.Answer → Prop) (v : Verifier)
    (roots : Genesis → Prop) (account : Url) (result : Except Failure Report) : Prop :=
  ∀ r, result = .ok r → r.verified = true → r.account = account ∧ ∃ p f, r.inclusion = some p ∧
    r.finality = some f ∧ Proven told v.anchoring v.config.chain roots account p f

variable (backend now) in
/-- A report on layers that have run goes back to a genesis with the verifier's own hash. -/
theorem reportLayers_assures (account : Url) (member : geneses v.genesis) :
    Assures geneses v.anchoring v.config.chain j (reportLayers v backend now account)
      fun result j' =>
      Reports j'.Told v (fun g => geneses g ∧ g.hash = v.genesis.hash) account result := by
  refine (runLayers_assures member).bind fun result j₁ _ layers => ?_
  cases result with
  | error cause => exact .pure fun _ _ _ same => nomatch same
  | ok o =>
    dsimp only
    split
    · rename_i verified
      obtain ⟨-, -, -, traced⟩ := verified_report.1 verified
      obtain ⟨p, f, inclusion, finality, proven⟩ := layers o rfl traced
      refine .remember_bind ⟨verified, rfl, p, f, inclusion, finality,
        proven.mono (fun _ _ told => told) fun _ root => root.1⟩ (.pure fun j₂ grown r same _ => ?_)
      obtain rfl := Except.ok.inj same
      exact ⟨rfl, p, f, inclusion, finality,
        proven.mono (fun _ _ told => told.mono grown) fun _ root => root⟩
    · rename_i unverified
      refine .pure fun _ _ r same verified => ?_
      obtain rfl := Except.ok.inj same
      exact absurd verified unverified

variable (backend now) in
theorem verifyAccount_assures (account : String) (member : geneses v.genesis) :
    Assures geneses v.anchoring v.config.chain j (v.verifyAccount backend now account)
      fun result j' => ∀ r, result = .ok r → r.verified = true →
        ∃ u, Url.parse account = .ok u ∧ Reports j'.Told v geneses u result := by
  cases parsed : Url.parse account with
  | error e =>
    unfold verifyAccount unlessReported
    rw [parsed]
    exact .pure fun _ _ _ same => nomatch same
  | ok u =>
    rw [verifyAccount_eq parsed]
    refine .lookup_bind (fun r j₁ _ kept => .pure fun j₂ grown _ _ _ => ⟨u, rfl, ?_⟩)
      ((reportLayers_assures backend now u member).weaken fun result j₁ _ reports r _ _ =>
        ⟨u, rfl, ?_⟩)
    · intro _ same _
      obtain rfl := Except.ok.inj same
      obtain ⟨-, own, p, f, inclusion, finality, proven⟩ := kept
      obtain rfl := Url.text_injective own
      exact ⟨rfl, p, f, inclusion, finality,
        proven.mono (fun _ _ told => told.mono grown) fun _ root => root⟩
    · intro r same verified
      obtain ⟨own, p, f, inclusion, finality, proven⟩ := reports r same verified
      exact ⟨own, p, f, inclusion, finality, proven.mono (fun _ _ told => told)
        fun _ root => root.1⟩

end

/-- Settings determine how roots are anchored. -/
theorem anchoring_of_config {v w : Verifier} (same : v.config = w.config) :
    v.anchoring = w.anchoring := by
  have accepted (v : Verifier) : v.config.accept = .ok v.authority := by
    have accepted := v.accepted
    unfold accept at accepted
    obtain ⟨authority, config, rest⟩ := Failure.bind_eq_ok.1 accepted
    rw [config]
    split at rest
    · cases rest
    · split at rest
      · split at rest
        · exact rest
        · cases rest
      · cases rest
  have authority := (accepted v).symm.trans ((congrArg Config.accept same).trans (accepted w))
  rw [anchoring, anchoring, same, Except.ok.inj authority]

end Verifier

namespace Session
open Verifier

section
variable {κ : Type} (callers : κ → Caller)

/-- The genesis of one of the callers. -/
def SomeGenesis (genesis : Genesis) : Prop :=
  ∃ k, (callers k).verifier.genesis = genesis

/-- Whatever callers with the same settings have done, the cache only keeps what it may. -/
theorem run_kept (same : ∀ k l, (callers k).verifier.config = (callers l).verifier.config) (k : κ)
    (settings : CacheConfig) (now : UInt64) (actions : List (Action κ)) :
    ((start settings now).run callers actions).state.cache.Holds
      (Kept (SomeGenesis callers) (callers k).verifier.anchoring (callers k).verifier.config.chain
        ((start settings now).run callers actions).state.journal) := by
  refine run_keeps (fun s => s.cache.Holds (Kept (SomeGenesis callers)
    (callers k).verifier.anchoring (callers k).verifier.config.chain s.journal))
    (fun s l account h => ?_)
    (fun _ _ fewer h => h.of_subset fewer) (Cache.holds_empty settings) actions
  rw [anchoring_of_config (same k l), same k l] at h ⊢
  exact (verifyAccount_assures _ s.now account ⟨l, rfl⟩ s.state (List.prefix_refl _) h).2.1

/-- Several verifiers with one genesis use one cache. A verified report that one of them returns is
about the account that was asked for, and among the answers that any of them has got there is all
that proves it; a quorum of the reported validators have signed by the reported signatures. -/
theorem verified_report_proven
    (same : ∀ k l, (callers k).verifier.config = (callers l).verifier.config ∧
      (callers k).verifier.genesis = (callers l).verifier.genesis)
    (settings : CacheConfig) (now : UInt64) (actions : List (Action κ)) (k : κ) (account : String)
    (r : Report)
    (returned : (((start settings now).run callers actions).verify (callers k) account).1 = .ok r)
    (verified : r.verified = true) :
    let told :=
      (((start settings now).run callers actions).verify (callers k) account).2.state.journal.Told
    Url.parse account = .ok r.account ∧ ∃ p f, r.inclusion = some p ∧ r.finality = some f ∧
      Proven told (callers k).verifier.anchoring (callers k).verifier.config.chain
        (· = (callers k).verifier.genesis) r.account p f ∧
      f.totalPower.toInt = Validator.powerSum f.validators ∧
      ∃ partSet, 2 * f.totalPower.toInt < 3 * Validator.powerSum (f.signatories partSet) := by
  intro told
  have kept := run_kept callers (fun k l => (same k l).1) k settings now actions
  obtain ⟨-, -, reports⟩ := verifyAccount_assures (callers k).backend
    ((start settings now).run callers actions).now account ⟨k, rfl⟩ _ (List.prefix_refl _) kept
  obtain ⟨u, parsed, reports⟩ := reports r returned verified
  obtain ⟨rfl, p, f, inclusion, finality, proven⟩ := reports r returned verified
  obtain ⟨block, -, seals⟩ := proven.sealed
  obtain ⟨signed, commit, certified⟩ := seals.certified
  refine ⟨parsed, p, f, inclusion, finality, proven.mono (fun _ _ told => told) ?_,
    certified.final.totalPower, signed.partSet, Finality.quorum_of_finalizes certified.final⟩
  rintro _ ⟨l, rfl⟩
  exact (same l k).2

end

/-- A report that is kept is returned as it is to every caller, and nothing is asked. -/
theorem verify_of_kept {s : Session} (caller : Caller) {account : String} {u : Url} {kept : Report}
    (parsed : Url.parse account = .ok u)
    (found : s.state.cache.peek? .reports u.text s.now = some kept) :
    (s.verify caller account).1 = .ok kept ∧
      (s.verify caller account).2.state.journal = s.state.journal := by
  rw [verify_result, verify_state, verifyAccount_eq parsed, lookup_bind_apply, found]
  exact ⟨rfl, rfl⟩

namespace Sample

/-- A chain with one entry in a network with one block. -/
def answers : (query : Query) → Except QueryError query.Answer
  | .chainHead .. => .ok (0 : UInt64)
  | .chainEntry .. => .ok (⟨root, some ⟨root, root, 1, []⟩⟩ : ChainEntry)
  | .block .. => .ok block
  | .anchor .. => .error (.notFound "anchor")
  | .commit .. => .ok (⟨1, 0, block.blockHash, [⟨[], signature, 0⟩]⟩ : Commit)
  | .validatorSet .. => .ok [validator]
  | .handovers .. => .ok ([] : List Handover)

def verifier : Verifier := ⟨.default, ⟨.zero, [validator]⟩, .directory, rfl⟩

/-- One caller whose backend knows the network, and one whose backend knows nothing. -/
def callers : Bool → Caller
  | false => ⟨verifier, .fixed answers⟩
  | true => ⟨verifier, .fixed fun _ => .error (.unavailable "offline")⟩

/-- The account under several spellings. -/
theorem parse_alice {account : String}
    (spelled : (Url.parse account).toOption.map Url.text = some "acc://alice") :
    ∃ u, Url.parse account = .ok u ∧ u.text = "acc://alice" := by
  cases parsed : Url.parse account with
  | error e =>
    rw [parsed] at spelled
    cases spelled
  | ok u =>
    rw [parsed] at spelled
    exact ⟨u, rfl, Option.some.inj spelled⟩

/-- The cache after the first verification. -/
def used : Session := ((start .default 0).verify ⟨verifier, .fixed answers⟩ "acc://alice").2

/-- The first verification succeeds, and its report is kept. -/
theorem report_kept : ∃ r : Report,
    used.state.cache.peek? .reports "acc://alice" used.now = some r ∧ r.verified = true ∧
      ∃ f, r.finality = some f ∧ f.validators = [validator] := by
  have kept : (used.state.cache.peek? .reports "acc://alice" used.now).any (fun r : Report =>
      r.verified && r.finality.any (·.validators == [validator])) = true := by decide +kernel
  obtain ⟨r, found, passes⟩ := (Option.any_eq_true _ _).1 kept
  obtain ⟨verified, signed⟩ := Bool.and_eq_true_iff.1 passes
  obtain ⟨f, finality, members⟩ := (Option.any_eq_true _ _).1 signed
  exact ⟨r, found, verified, f, finality, by simpa using members⟩

end Sample

/-- What one caller has verified another one gets from the cache, with the evidence of the first. -/
theorem offline_report_proven : ∃ r,
    (((start .default 0).run Sample.callers [.verify false "acc://alice"]).verify
      (Sample.callers true)
      "ACC://alice/").1 = .ok r ∧ r.verified = true ∧
    ∃ p f, r.inclusion = some p ∧ r.finality = some f ∧
    Proven (((start .default 0).run Sample.callers [.verify false "acc://alice"]).verify
      (Sample.callers true) "ACC://alice/").2.state.journal.Told Sample.verifier.anchoring "main"
      (· = Sample.verifier.genesis) r.account p f := by
  obtain ⟨r, kept, verified, -⟩ := Sample.report_kept
  obtain ⟨u, parsed, text⟩ : ∃ u, Url.parse "ACC://alice/" = .ok u ∧ u.text = "acc://alice" :=
    Sample.parse_alice rfl
  rw [← text] at kept
  have returned := (verify_of_kept (Sample.callers true) parsed kept).1
  obtain ⟨-, p, f, inclusion, finality, proven, -⟩ := verified_report_proven Sample.callers
    (fun k l => by cases k <;> cases l <;> exact ⟨rfl, rfl⟩) .default 0
    [.verify false "acc://alice"] true "ACC://alice/" r returned verified
  exact ⟨r, returned, verified, p, f, inclusion, finality, proven⟩

end Session

end LightClient
