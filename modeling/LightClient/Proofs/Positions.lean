import LightClient.Proofs.HomePartition

/-!
# The keys of chain positions

The key of a position joins an account, the name of a chain and an index. A hash sign stands between
the first two, and accounts and names may contain one themselves. So positions of one key are the
same, or the name of one chain goes on behind a hash sign as the name of the other does, and what
stands before it has moved over to the account. An inclusion is looked up by this key alone, so with
such names one is found that was kept for another account.
-/
namespace LightClient

namespace Verifier

/-- A head of the chain's name stands at the end of the other account instead, behind a hash
sign. -/
def Shifts (u : Url) (chain : String) (u' : Url) (chain' : String) : Prop :=
  ∃ head : List Char, u'.text.toList = u.text.toList ++ '#' :: head ∧
    chain.toList = head ++ '#' :: chain'.toList

/-- The name of a chain is another one with a hash sign before it and, before that, something that
may end an account. -/
def Nested (chain chain' : String) : Prop :=
  ∃ head : List Char, chain.toList = head ++ '#' :: chain'.toList ∧
    (∀ c ∈ head, Text.isBlank c = false) ∧ head.getLast? ≠ some '/'

variable {u u' : Url} {chain chain' : String} {i i' : UInt64}

/-- Which positions have one key. -/
theorem positionKey_eq_iff :
    positionKey u chain i = positionKey u' chain' i' ↔
      i = i' ∧ ((u = u' ∧ chain = chain') ∨ Shifts u chain u' chain' ∨
        Shifts u' chain' u chain) := by
  have cuts : u.text.toList ++ '#' :: chain.toList = u'.text.toList ++ '#' :: chain'.toList ↔
      (u = u' ∧ chain = chain') ∨ Shifts u chain u' chain' ∨ Shifts u' chain' u chain := by
    rw [List.append_cons_eq_iff, String.toList_inj, String.toList_inj]
    refine or_congr (and_congr_left' ⟨Url.text_injective, congrArg Url.text⟩) Iff.rfl
  constructor
  · intro same
    obtain ⟨front, index⟩ := positionKey_parts same
    exact ⟨index, cuts.1 front⟩
  · rintro ⟨rfl, places⟩
    refine String.toList_inj.1 ?_
    rw [toList_positionKey, toList_positionKey, cuts.2 places]

theorem Shifts.nested (h : Shifts u chain u' chain') : Nested chain chain' := by
  obtain ⟨head, account, name⟩ := h
  refine ⟨head, name, fun c member => ?_, fun last => ?_⟩
  · exact u'.isBlank_of_mem_text c (by simp [account, member])
  · refine u'.getLast?_text ?_
    rw [account, List.getLast?_append, List.getLast?_cons, last]
    rfl

/-- A name without a hash sign has no other name nested in it. -/
theorem not_nested (free : '#' ∉ chain.toList) : ¬ Nested chain chain' := by
  rintro ⟨head, name, -⟩
  exact free (by simp [name])

theorem Shifts.ne (h : Shifts u chain u' chain') : u ≠ u' := by
  rintro rfl
  obtain ⟨head, account, -⟩ := h
  have := congrArg List.length account
  simp at this

end Verifier

namespace Url
variable {rest : List Char}

theorem normal_below (clean : ∀ c ∈ rest, Text.isBlank c = false)
    (ends : rest.getLast? ≠ some '/') :
    Normal "a".toList ('/' :: 'b' :: rest) := by
  refine ⟨by decide, by decide, by decide, ?_, .inr rfl, ?_⟩
  · have known : ("a".toList ++ ['/', 'b']).all (fun c => !Text.isBlank c) = true := by decide
    intro c member
    rcases List.mem_append.1 (show c ∈ ("a".toList ++ ['/', 'b']) ++ rest by simpa using member)
      with member | member
    · simpa using List.all_eq_true.1 known c member
    · exact clean c member
  · rw [List.getLast?_cons_cons, List.getLast?_cons]
    cases last : rest.getLast? with
    | none => decide
    | some c => simpa [last] using ends

/-- An account whose path starts with one letter and goes on as given. -/
def below (rest : List Char) (clean : ∀ c ∈ rest, Text.isBlank c = false)
    (ends : rest.getLast? ≠ some '/') : Url where
  authority := "a"
  path := String.ofList ('/' :: 'b' :: rest)
  normal := by simpa only [String.toList_ofList] using normal_below clean ends

theorem toList_text_below (clean : ∀ c ∈ rest, Text.isBlank c = false)
    (ends : rest.getLast? ≠ some '/') : (below rest clean ends).text.toList =
      "acc://a/b".toList ++ rest := by
  have front : scheme.toList ++ ("a".toList ++ ['/', 'b']) = "acc://a/b".toList := by decide
  have path : (below rest clean ends).path.toList = ['/', 'b'] ++ rest := String.toList_ofList
  rw [toList_text, path, ← front, List.append_assoc, List.append_assoc]
  rfl

end Url

namespace Verifier
variable {chain chain' : String}

/-- If a name is nested in another one, there are two accounts whose positions in these chains share
a key. -/
theorem Nested.shifts (h : Nested chain chain') : ∃ u u', Shifts u chain u' chain' := by
  obtain ⟨head, name, clean, ends⟩ := h
  have clean' : ∀ c ∈ '#' :: head, Text.isBlank c = false := by
    intro c member
    rcases List.mem_cons.1 member with rfl | member
    · decide
    · exact clean c member
  have ends' : ('#' :: head).getLast? ≠ some '/' := by
    rw [List.getLast?_cons]
    cases last : head.getLast? with
    | none => decide
    | some c => simpa [last] using ends
  refine ⟨.below [] (fun _ => nofun) nofun, .below ('#' :: head) clean' ends', head, ?_, name⟩
  rw [Url.toList_text_below, Url.toList_text_below, List.append_nil]

/-- The names of chains whose positions never share a key with each other. -/
theorem keys_apart_iff :
    (∀ u u' i i', positionKey u chain i = positionKey u' chain' i' →
      u = u' ∧ chain = chain' ∧ i = i') ↔
      ¬ Nested chain chain' ∧ ¬ Nested chain' chain := by
  constructor
  · intro apart
    have parted {u u' : Url} (moved : Shifts u chain u' chain' ∨ Shifts u' chain' u chain) :
        u = u' :=
      (apart u u' 0 0 (positionKey_eq_iff.2 ⟨rfl, .inr moved⟩)).1
    constructor
    · intro nested
      obtain ⟨u, u', shifts⟩ := nested.shifts
      exact shifts.ne (parted (.inl shifts))
    · intro nested
      obtain ⟨u, u', shifts⟩ := nested.shifts
      exact shifts.ne (parted (.inr shifts)).symm
  · rintro ⟨first, second⟩ u u' i i' same
    obtain ⟨index, ⟨scope, name⟩ | shifts | shifts⟩ := positionKey_eq_iff.1 same
    · exact ⟨scope, name, index⟩
    · exact absurd shifts.nested first
    · exact absurd shifts.nested second

end Verifier

/-- What the inclusions in a cache satisfy: each is in a chain with one of these names, and under
the key of its own position. -/
def Cache.Filed (names : String → Prop) : (t : Table) → String → t.Value → Prop
  | .inclusions, key, p => key = Verifier.positionKey p.scope p.chain p.index ∧ names p.chain
  | .reports, _, _ | .receipts, _, _ | .finalities, _, _ | .traces, _, _ => True

theorem Cache.filed_of_ne {names : String → Prop} (t : Table) (other : t ≠ .inclusions)
    (key : String) (value : t.Value) : Filed names t key value := by
  cases t with
  | inclusions => exact absurd rfl other
  | _ => trivial

namespace Verifier
variable {v : Verifier} {backend : Backend} {now : UInt64} {s : State} {names : String → Prop}
  {account : Url} {p : Inclusion} {fetched : Bool}

/-- What is found has the key of the position that was asked for. It is of this very position if it
was built, and in a chain with one of the names if it was kept. -/
theorem position_of_located (kept : s.cache.Holds (Cache.Filed names))
    (located : (v.locateInclusion backend now account s).1 = .ok (p, fetched)) :
    ∃ index, backend s.journal (.chainHead account v.config.chain) = .ok index ∧
      positionKey account v.config.chain index = positionKey p.scope p.chain p.index ∧
      ((p.scope = account ∧ p.chain = v.config.chain) ∨ fetched = false ∧ names p.chain) := by
  obtain ⟨index, answered, found⟩ := cases_of_located located
  refine ⟨index, answered, ?_⟩
  rcases found with ⟨reused, cached⟩ | ⟨-, journal, built⟩
  · have filed : Cache.Filed names .inclusions _ p := kept.of_peek? cached
    exact ⟨filed.1, .inr ⟨reused, filed.2⟩⟩
  · have faithful := Inclusion.faithful_of_build built
    exact ⟨by rw [faithful.scope, faithful.chain, faithful.index],
      .inl ⟨faithful.scope, faithful.chain⟩⟩

theorem runLayers_filed (own : names v.config.chain) (kept : s.cache.Holds (Cache.Filed names)) :
    (v.runLayers backend now account s).2.cache.Holds (Cache.Filed names) := by
  refine runLayers_keeps Cache.filed_of_ne account kept fun p found => ⟨rfl, ?_⟩
  rw [findInclusion_apply] at found
  cases located : (v.locateInclusion backend now account s).1 with
  | error f =>
    rw [located] at found
    cases found
  | ok served =>
    rw [located] at found
    obtain rfl : served.1 = p := Except.ok.inj found
    obtain ⟨index, -, -, ⟨-, chain⟩ | ⟨-, known⟩⟩ := position_of_located kept located
    · exact chain ▸ own
    · exact known

theorem verifyAccount_filed (account : String) (own : names v.config.chain)
    (kept : s.cache.Holds (Cache.Filed names)) :
    (v.verifyAccount backend now account s).2.cache.Holds (Cache.Filed names) := by
  unfold verifyAccount unlessReported
  cases Url.parse account with
  | error e => exact kept
  | ok u =>
    dsimp only
    rw [lookup_bind_apply]
    cases s.cache.peek? .reports u.text now with
    | some r => exact kept.get
    | none =>
      dsimp only
      rw [State.bind_apply]
      have ran :
          (v.runLayers backend now u ⟨(s.cache.get .reports u.text now).2, s.journal⟩).2.cache.Holds
          (Cache.Filed names) := runLayers_filed own kept.get
      generalize v.runLayers backend now u ⟨_, s.journal⟩ = result at ran ⊢
      obtain ⟨result, s'⟩ := result
      cases result with
      | error f => exact ran
      | ok o =>
        dsimp only
        split
        · exact ran.store trivial
        · exact ran

/-- What is put to the check is of another position than asked for: it was kept for one in a chain
with one of the names, and a head of one chain's name stands at the end of the other account
instead. -/
structure Strays (v : Verifier) (names : String → Prop) (account : Url) (x : Serving) : Prop where
  kept : x.fetched = false
  named : names x.inclusion.chain
  shifts : Shifts account v.config.chain x.inclusion.scope x.inclusion.chain ∨
    Shifts x.inclusion.scope x.inclusion.chain account v.config.chain

theorem position_of_served {text : String} {x : Serving} (kept : s.cache.Holds (Cache.Filed names))
    (parsed : Url.parse text = .ok account) (served : (v.serve? backend now text s).1 = some x) :
    backend s.journal (.chainHead account v.config.chain) = .ok x.inclusion.index ∧
      ((x.inclusion.scope = account ∧ x.inclusion.chain = v.config.chain) ∨
        v.Strays names account x) := by
  obtain ⟨-, u, parsed', located⟩ := serve?_eq_some served
  obtain rfl : account = u := Except.ok.inj (parsed.symm.trans parsed')
  have looked : (s.cache.get .reports account.text now).2.Holds (Cache.Filed names) := kept.get
  obtain ⟨index, answered, key, origin⟩ := position_of_located (s := ⟨_, s.journal⟩) looked located
  obtain ⟨rfl, places⟩ := positionKey_eq_iff.1 key
  refine ⟨answered, ?_⟩
  rcases origin with own | ⟨unfetched, known⟩
  · exact .inl own
  · rcases places with ⟨scope, chain⟩ | shifts
    · exact .inl ⟨scope.symm, chain.symm⟩
    · exact .inr ⟨unfetched, known, shifts⟩

/-! ## What a report tells -/

/-- The run keeps the inclusion that it began with, if it comes to an outcome. -/
def Retains (o : Outcome) (result : Except Failure Outcome) : Prop :=
  ∀ o', result = .ok o' → o'.inclusion = o.inclusion

theorem Retains.ok {o o' : Outcome} (same : o'.inclusion = o.inclusion) : Retains o (.ok o') :=
  fun _ equal => Except.ok.inj equal ▸ same

theorem runSigned_retains (o : Outcome) (partition : Url) (block : Block) :
    Ensures (Retains o) (v.runSigned backend now o partition block) := by
  refine (verifySignatures_ran partition block).bind fun result _ => ?_
  obtain ⟨x, finality?⟩ := result
  cases finality? with
  | none => exact .pure (.ok rfl)
  | some finality =>
    refine (verifyGenesis_ran finality).bind fun result _ => ?_
    cases result with
    | error f => exact .pure fun _ same => nomatch same
    | ok y => exact .pure (.ok rfl)

theorem runCommitted_retains (o : Outcome) (p : Inclusion) :
    Ensures (Retains o) (v.runCommitted backend now o p) := by
  unfold runCommitted
  cases Url.parse p.sourcePartition with
  | error e => exact .pure (.ok rfl)
  | ok home =>
    refine (Ensures.asked _).bind fun result _ => ?_
    obtain ⟨x, block?⟩ := result
    cases block? with
    | none => exact .pure (.ok rfl)
    | some block =>
      dsimp only
      unfold runAnchored
      split
      · refine (Ensures.asked _).bind fun result _ => ?_
        obtain ⟨y, anchored?⟩ := result
        cases anchored? with
        | none => exact .pure (.ok rfl)
        | some anchored => exact runSigned_retains ((o.record x).record y) _ _
      · exact runSigned_retains ((o.record x).record (anchorNotRequired home)) _ _

/-- The inclusion in an outcome is the one that was found. -/
theorem located_of_runLayers {o : Outcome} (run : (v.runLayers backend now account s).1 = .ok o)
    (included : o.inclusion = some p) :
    ∃ fetched, (v.locateInclusion backend now account s).1 = .ok (p, fetched) := by
  unfold runLayers at run
  rw [State.bind_apply, findInclusion_apply] at run
  generalize v.locateInclusion backend now account s = found at run ⊢
  obtain ⟨result, s₁⟩ := found
  cases result with
  | error f =>
    dsimp only [Except.map] at run
    split at run
    · cases run
    · obtain rfl := Except.ok.inj run
      cases included
  | ok served =>
    obtain ⟨q, fetched⟩ := served
    dsimp only [Except.map] at run
    split at run
    · rw [State.bind_apply] at run
      have same := (runCommitted_retains _ q _).1 o run
      obtain rfl : q = p := Option.some.inj (same.symm.trans included)
      exact ⟨fetched, rfl⟩
    · obtain rfl := Except.ok.inj run
      obtain rfl : q = p := Option.some.inj included
      exact ⟨fetched, rfl⟩

/-- The inclusion in a report that was not kept is the one that was put to the check. -/
theorem served_of_report {text : String} {r : Report} (parsed : Url.parse text = .ok account)
    (fresh : s.cache.peek? .reports account.text now = none)
    (returned : (v.verifyAccount backend now text s).1 = .ok r) (included : r.inclusion = some p) :
    ∃ x, (v.serve? backend now text s).1 = some x ∧ x.inclusion = p := by
  unfold verifyAccount unlessReported at returned
  unfold serve? unlessReported
  rw [parsed] at returned ⊢
  dsimp only at returned ⊢
  rw [lookup_bind_apply, fresh] at returned ⊢
  dsimp only at returned ⊢
  rw [State.bind_apply] at returned ⊢
  have located (o : Outcome)
      (run :
        (v.runLayers backend now account ⟨(s.cache.get .reports account.text now).2, s.journal⟩).1
        = .ok o) (own : o.inclusion = some p) := located_of_runLayers run own
  generalize v.runLayers backend now account ⟨_, s.journal⟩ = result at returned located
  obtain ⟨result, s'⟩ := result
  cases result with
  | error f => cases returned
  | ok o =>
    dsimp only at returned
    obtain rfl : report now account o = r := by
      split at returned <;> exact Except.ok.inj returned
    obtain ⟨fetched, found⟩ := located o rfl included
    exact ⟨⟨now, p, fetched⟩, by rw [found]; rfl, rfl⟩

end Verifier

namespace Session
open Verifier
variable {κ : Type} (callers : κ → Caller)

/-- The names of the chains that the callers verify. -/
def chains (chain : String) : Prop := ∃ k, (callers k).verifier.config.chain = chain

theorem run_filed (settings : CacheConfig) (now : UInt64) (actions : List (Action κ)) :
    ((start settings now).run callers actions).state.cache.Holds (Cache.Filed (chains callers)) :=
  run_keeps (fun s => s.cache.Holds (Cache.Filed (chains callers)))
    (fun _ caller account kept => verifyAccount_filed account ⟨caller, rfl⟩ kept)
    (fun _ _ fewer kept => kept.of_subset fewer) (Cache.holds_empty settings) actions

/-- Two positions have one key if and only if they are the same, or a head of one chain's name
stands at the end of the other account instead. So the positions in chains of two names are told
apart by their keys if and only if neither name is nested in the other. What a verification puts to
the check, and tells in a report that was not kept, is then of the position that it asks for, in
every session of callers without nested names. With nested names it may stray. -/
theorem positions_told_apart (settings : CacheConfig) (now : UInt64) (actions : List (Action κ)) :
    (∀ u u' chain chain' i i', positionKey u chain i = positionKey u' chain' i' ↔
      i = i' ∧ ((u = u' ∧ chain = chain') ∨ Shifts u chain u' chain' ∨ Shifts u' chain' u chain)) ∧
    (∀ chain chain', (∀ u u' i i', positionKey u chain i = positionKey u' chain' i' →
        u = u' ∧ chain = chain' ∧ i = i') ↔ ¬ Nested chain chain' ∧ ¬ Nested chain' chain) ∧
    let s := (start settings now).run callers actions
    ∀ caller text account, Url.parse text = .ok account →
      let v := (callers caller).verifier
      (∀ x, s.served? callers (.verify caller text) = some x →
        (callers caller).backend s.state.journal (.chainHead account v.config.chain)
            = .ok x.inclusion.index ∧
        ((x.inclusion.scope = account ∧ x.inclusion.chain = v.config.chain) ∨
          v.Strays (chains callers) account x) ∧
        ((∀ chain, chains callers chain →
            ¬ Nested v.config.chain chain ∧ ¬ Nested chain v.config.chain) →
          x.inclusion.scope = account ∧ x.inclusion.chain = v.config.chain)) ∧
      ∀ r p, s.state.cache.peek? .reports account.text s.now = none →
        (s.verify (callers caller) text).1 = .ok r → r.inclusion = some p →
        ∃ x, s.served? callers (.verify caller text) = some x ∧ x.inclusion = p := by
  refine ⟨fun _ _ _ _ _ _ => positionKey_eq_iff, fun _ _ => keys_apart_iff, ?_⟩
  intro s caller text account parsed v
  refine ⟨fun x served => ?_, fun r p => served_of_report parsed⟩
  obtain ⟨answered, place⟩ :=
    position_of_served (run_filed callers settings now actions) parsed served
  refine ⟨answered, place, fun apart => ?_⟩
  rcases place with own | strays
  · exact own
  · obtain ⟨first, second⟩ := apart _ strays.named
    rcases strays.shifts with shifts | shifts
    · exact absurd shifts.nested first
    · exact absurd shifts.nested second

/-- No name with a hash sign is around, and a report for which an inclusion was used again tells of
the position that was asked for. -/
theorem alice_told_apart : ∃ account r p, Url.parse "acc://alice" = .ok account ∧
    (((start .default 0).run (fun _ : Unit => Sample.unsigned) [.verify () "acc://alice"]).verify
      Sample.unsigned "acc://alice").1 = .ok r ∧ r.inclusion = some p ∧
    (∀ chain, chains (fun _ : Unit => Sample.unsigned) chain →
      ¬ Nested "main" chain ∧ ¬ Nested chain "main") ∧
    p.scope = account ∧ p.chain = "main" := by
  obtain ⟨account, parsed, spelled⟩ : ∃ u, Url.parse "acc://alice" = .ok u ∧
      u.text = "acc://alice" :=
    Sample.parse_alice rfl
  have reported : (((start .default 0).run (fun _ : Unit => Sample.unsigned)
      [.verify () "acc://alice"]).verify Sample.unsigned "acc://alice").1.toOption.any
        (·.inclusion.isSome) = true := by decide +kernel
  obtain ⟨r, returned, included⟩ := Sample.exists_of_any reported
  obtain ⟨p, inclusion⟩ := Option.isSome_iff_exists.1 included
  let s := (start .default 0).run (fun _ : Unit => Sample.unsigned) [.verify () "acc://alice"]
  have unkept : s.state.cache.peek? .reports account.text s.now = none := by
    rw [spelled]
    exact Option.isNone_iff_eq_none.1 (by decide +kernel)
  have apart : ∀ chain, chains (fun _ : Unit => Sample.unsigned) chain →
      ¬ Nested "main" chain ∧ ¬ Nested chain "main" := by
    rintro chain ⟨-, rfl⟩
    have free : '#' ∉ "main".toList := by decide
    exact ⟨not_nested free, not_nested free⟩
  obtain ⟨-, -, runs⟩ := positions_told_apart (fun _ : Unit => Sample.unsigned) .default 0
    [.verify () "acc://alice"]
  obtain ⟨served, reports⟩ := runs () "acc://alice" account parsed
  obtain ⟨x, found, rfl⟩ := reports r p unkept returned inclusion
  obtain ⟨-, -, own⟩ := served x found
  exact ⟨account, r, _, parsed, returned, inclusion, apart, own apart⟩

namespace Sample

/-- Two verifiers of chains with other names. The backend of the second one has no entry of any
chain. -/
def neighbours : Bool → Caller
  | false => ⟨⟨{ Config.default with chain := "c" }, ⟨.zero, [validator]⟩, .directory, rfl⟩,
      .fixed answers⟩
  | true => ⟨⟨{ Config.default with chain := "b#c" }, ⟨.zero, [validator]⟩, .directory, rfl⟩,
      .fixed fun
        | .chainEntry .. => .error (.notFound "entry")
        | query => answers query⟩

end Sample

/-- With nested names two positions have one key, and a verifier reports full trust in an account
for an inclusion that another one has kept for another account and chain. -/
theorem inclusion_of_neighbour :
    (¬ ∀ u u' chain chain' i i', Text.isBlankText chain = false → Text.isBlankText chain' = false →
      positionKey u chain i = positionKey u' chain' i' → u = u' ∧ chain = chain' ∧ i = i') ∧
    ∃ r p, (((start .default 0).run Sample.neighbours [.verify false "acc://a#b"]).verify
        (Sample.neighbours true) "acc://a").1 = .ok r ∧
      r.verified = true ∧ r.account.text = "acc://a" ∧
      r.inclusion = some p ∧ p.scope.text = "acc://a#b" ∧ p.chain = "c" := by
  constructor
  · intro apart
    have clean : ∀ c ∈ ['b'], Text.isBlank c = false := by
      intro c member
      obtain rfl := List.mem_singleton.1 member
      decide
    have nested : Nested "b#c" "c" := ⟨['b'], by decide, clean, by decide⟩
    have parted := keys_apart_iff.1 fun u u' i i' =>
      apart u u' "b#c" "c" i i' (by decide) (by decide)
    exact parted.1 nested
  · have reported : (((start .default 0).run Sample.neighbours [.verify false "acc://a#b"]).verify
        (Sample.neighbours true) "acc://a").1.toOption.any (fun r => r.verified &&
          r.account.text == "acc://a" &&
          r.inclusion.any fun p => p.scope.text == "acc://a#b" && p.chain == "c") = true := by
      decide +kernel
    obtain ⟨r, returned, passes⟩ := Sample.exists_of_any reported
    simp only [Bool.and_eq_true, beq_iff_eq] at passes
    obtain ⟨⟨verified, account⟩, included⟩ := passes
    obtain ⟨p, inclusion, place⟩ := (Option.any_eq_true _ _).1 included
    simp only [Bool.and_eq_true, beq_iff_eq] at place
    exact ⟨r, p, returned, verified, account, inclusion, place⟩

end Session

end LightClient
