import LightClient.Proofs.Layers

/-!
# Causes of failures

Which kinds of failures each step can end with. Input that is unusable only comes from the first
layer's data, gaps only from the handovers; the other layers take in what is too long or too high as
well, and what they have been given then is told exactly.
-/
namespace LightClient

variable {α β : Type}

namespace Failure

@[simp] theorem aborts_context (text : String) (f : Failure) :
    (context text f).aborts = f.aborts := rfl

theorem aborts_iff {f : Failure} :
    f.aborts = true ↔ f.kind = .malformedInput ∨ f.kind = .chainDiscontinuity := by
  simp [aborts]

theorem bind_eq_error {x : Except Failure α} {g : α → Except Failure β} {f : Failure} :
    (x >>= g) = .error f ↔ x = .error f ∨ ∃ a, x = .ok a ∧ g a = .error f := by
  cases x with
  | error e => simp [bind, Except.bind]
  | ok a => simp [bind, Except.bind]

/-- A result that is a failure only of these kinds. -/
def Within (kinds : List Kind) (x : Except Failure α) : Prop := ∀ f, x = .error f → f.kind ∈ kinds

namespace Within
variable {kinds others : List Kind} {x : Except Failure α}

theorem ok (a : α) : Within kinds (.ok a) := fun _ same => nomatch same

theorem error {f : Failure} (h : f.kind ∈ kinds) : Within kinds (.error f : Except Failure α) :=
  fun _ same => Except.error.inj same ▸ h

theorem mono (h : Within kinds x) (wider : kinds ⊆ others) : Within others x :=
  fun f same => wider (h f same)

theorem bind {g : α → Except Failure β} (first : Within kinds x) (next : ∀ a, Within kinds (g a)) :
    Within kinds (x >>= g) := by
  cases x with
  | error f => exact fun g same => first g (congrArg Except.error (Except.error.inj same))
  | ok a => exact next a

theorem inContext {text : String} (h : Within kinds x) : Within kinds (inContext text x) := by
  cases x with
  | error f => exact .error (h f rfl)
  | ok a => exact .ok a

theorem ite {c : Prop} [Decidable c] {y : Except Failure α} (yes : Within kinds x)
    (no : Within kinds y) : Within kinds (if c then x else y) := by
  split
  · exact yes
  · exact no

/-- A failure that does not end the verification. -/
theorem not_aborts {f : Failure}
    (h : Within [.missingData, .backendUnavailable, .invariantViolation] x)
    (failed : x = .error f) : f.aborts = false := by
  have among := h f failed
  simp only [List.mem_cons, List.not_mem_nil, or_false] at among
  rcases among with kind | kind | kind <;> simp [aborts, kind]

end Within

end Failure

namespace Inquiry

/-- An inquiry that fails only with these kinds. -/
def Within (kinds : List Failure.Kind) (m : Inquiry α) : Prop :=
  ∀ j, Failure.Within kinds (m.run j).1

namespace Within
variable {kinds : List Failure.Kind} {m : Inquiry α}

theorem pure (a : α) : Within kinds (Pure.pure a) := fun _ => .ok a

theorem lift {x : Except Failure α} (h : Failure.Within kinds x) :
    Within kinds (liftM x : Inquiry α) := fun _ => h

theorem bind {g : α → Inquiry β} (first : Within kinds m) (next : ∀ a, Within kinds (g a)) :
    Within kinds (m >>= g) := fun j => by
  have first := first j
  rw [run_bind_apply]
  cases run : m.run j with
  | mk result j' =>
    rw [run] at first
    cases result with
    | error f => exact fun g same => first g (congrArg Except.error (Except.error.inj same))
    | ok a => exact next a j'

theorem ask {backend : Backend} {context : String} {query : Query}
    (data : [.missingData, .backendUnavailable] ⊆ kinds) :
    Within kinds (backend.ask context query) := fun j => by
  change Failure.Within kinds (Failure.ofAnswer context (backend j query))
  cases backend j query with
  | ok answer => exact .ok answer
  | error cause =>
    refine .error (data ?_)
    cases cause <;> simp [Failure.kind, QueryError.kind]

end Within

end Inquiry

namespace Inclusion

theorem checkConsistency_within (p : Inclusion) :
    Failure.Within [.invariantViolation] p.checkConsistency := by
  unfold checkConsistency
  repeat' apply Failure.Within.ite
  all_goals first | exact .ok _ | exact .error (by simp [Failure.kind])

theorem resolvePartition_within (height : UInt64) (declared : Option String) :
    Failure.Within [.missingData, .invariantViolation] (resolvePartition height declared) := by
  have unresolved (found : Option String) : Failure.Within [.missingData, .invariantViolation]
      (.error (.partitionResolution height found) : Except Failure Url) := by
    refine .error ?_
    cases found with
    | none => simp [Failure.kind]
    | some found => by_cases empty : found = "" <;> simp [Failure.kind, empty]
  unfold resolvePartition
  cases declared with
  | none => exact unresolved none
  | some text =>
    refine .ite ?_ (unresolved _)
    cases Url.parse text with
    | ok url => exact .ok url
    | error cause => exact unresolved _

/-- Data that makes no inclusion is never told apart from a gap in the handovers by its kind. -/
theorem build_within (backend : Backend) (scope : Url) (chain : String) (index : UInt64) :
    (build backend scope chain index).Within
      [.malformedInput, .missingData, .backendUnavailable, .invariantViolation] := by
  refine .bind (.lift ?_) fun _ => .bind (.ask (by simp)) fun entry =>
    .bind (.lift ?_) fun receipt =>
    .bind (.ask (by simp)) fun block => .bind (.lift ((resolvePartition_within _ _).mono (by simp)))
    fun partition => .bind (.lift ((checkConsistency_within _).mono (by simp))) fun _ => .pure _
  · exact .ite (.error (by simp [Failure.kind])) (.ok _)
  · unfold entryReceipt
    cases entry.receipt with
    | none => exact .error (by simp [Failure.kind])
    | some receipt => exact .ite (.error (by simp [Failure.kind])) (.ok _)

end Inclusion

namespace Anchoring

theorem stateCommitment_within (backend : Backend) (partition : Url) (root : Hash)
    (height : UInt64) :
    (stateCommitment backend partition root height).Within
      [.missingData, .backendUnavailable, .invariantViolation] := by
  refine .bind (.ask (by simp)) fun block => .bind (.lift ?_) fun _ => .pure _
  exact .ite (.error (by simp [Failure.kind])) (.ite (.error (by simp [Failure.kind])) (.ok _))

end Anchoring

namespace Commit

theorem fetch_within (backend : Backend) (partition : Url) (height : UInt64) :
    (fetch backend partition height).Within
      [.missingData, .backendUnavailable, .invariantViolation] := by
  have requireSome_within {α : Type} (what : String) (records : List α) : Failure.Within
      [.missingData, .backendUnavailable, .invariantViolation] (requireSome what records) :=
    .ite (.error (by simp [Failure.kind, QueryError.kind])) (.ok _)
  exact .bind (.ask (by simp)) fun set => .bind (.lift (requireSome_within _ set)) fun _ =>
    .bind (.ask (by simp)) fun commit =>
    .bind (.lift (requireSome_within _ commit.precommits)) fun _ =>
    .pure _

end Commit

namespace Handover

theorem checkFormsFrom_within (index : Nat) (previous : Option Int64) (handovers : List Handover) :
    Failure.Within [.invariantViolation] (checkFormsFrom index previous handovers) := by
  induction handovers generalizing index previous with
  | nil => exact .ok _
  | cons h rest ih =>
    unfold checkFormsFrom
    cases h.formError? previous with
    | none => exact ih _ _
    | some reason => exact .error (by simp [Failure.kind])

theorem checkWithin_within (height : Int64) (handovers : List Handover) :
    Failure.Within [.invariantViolation] (checkWithin height handovers) := by
  unfold checkWithin
  cases firstBeyond? height 0 handovers with
  | none => exact .ok _
  | some found => exact .error (by simp [Failure.kind])

theorem pathFrom_within (target last : Int64) (handovers : List Handover) :
    Failure.Within [.chainDiscontinuity] (pathFrom target last handovers) := by
  induction handovers generalizing last with
  | nil => exact .ok _
  | cons h rest ih =>
    refine .ite (.error (by simp [Failure.kind])) (.ite (.ok _) ?_)
    exact .bind (ih h.toHeight) fun path => .ok (h.toHeight :: path)

theorem heightPath_within (handovers : List Handover) (target : Int64) :
    Failure.Within [.chainDiscontinuity] (heightPath handovers target) :=
  .ite (.error (by simp [Failure.kind]))
    (.bind (pathFrom_within target 0 handovers) fun path => .ok (0 :: path))

theorem verify_within (algorithm : HashAlgorithm) (h : Handover) :
    Failure.Within [.invariantViolation] (h.verify algorithm) := by
  unfold verify
  cases Validator.totalPower? h.oldSet with
  | none => exact .error (by simp [Failure.kind])
  | some total => exact .ite (.error (by simp [Failure.kind])) (.ok _)

theorem walk_within (algorithm : HashAlgorithm) (trusted : List Validator)
    (handovers : List Handover) :
    Failure.Within [.invariantViolation] (walk algorithm trusted handovers) := by
  induction handovers generalizing trusted with
  | nil => exact .ok _
  | cons h rest ih =>
    exact .ite (.error (by simp [Failure.kind]))
      (.bind (verify_within algorithm h) fun _ => ih h.newSet)

end Handover

namespace Genesis

theorem check_within (genesis : Genesis) (algorithm : HashAlgorithm) (current : List Validator)
    (height : Int64) (handovers : List Handover) :
    Failure.Within [.invariantViolation, .chainDiscontinuity]
      (genesis.check algorithm current height handovers) := by
  have traced : Failure.Within [.invariantViolation, .chainDiscontinuity]
      (genesis.trace? algorithm current height handovers) :=
    .ite (.ok _) <|
      .bind ((Handover.checkFormsFrom_within 0 none handovers).mono (by simp)) fun _ =>
      .bind ((Handover.checkWithin_within height handovers).mono (by simp)) fun _ =>
      .bind ((Handover.heightPath_within handovers height).mono (by simp)) fun _ =>
      .bind ((Handover.walk_within algorithm genesis.validators handovers).mono (by simp)) fun _ =>
      .ok _
  refine .bind traced fun trace => ?_
  cases trace with
  | some trace => exact .ok _
  | none => exact .error (by simp [Failure.kind])

end Genesis

namespace Verifier

/-- No walk fails for unusable input. -/
theorem traceGenesis_within (v : Verifier) (backend : Backend) (validators : List Validator)
    (height : Int64) : (v.traceGenesis backend validators height).Within
      [.missingData, .backendUnavailable, .invariantViolation, .chainDiscontinuity] :=
  .bind (.ask (by simp)) fun handovers =>
    .lift ((Genesis.check_within _ _ validators height handovers).mono (by simp))

end Verifier

namespace Inquiry
variable {j j' : Journal} {f : Failure}

/-- After the journal `j` the inquiry fails with `f`, which makes the journal `j'`. -/
def Fails (m : Inquiry α) (j : Journal) (f : Failure) (j' : Journal) : Prop :=
  m.run j = (.error f, j')

theorem fails_bind {m : Inquiry α} {g : α → Inquiry β} :
    Fails (m >>= g) j f j' ↔ Fails m j f j' ∨ ∃ a j₁, Yields m j a j₁ ∧ Fails (g a) j₁ f j' := by
  unfold Fails Yields
  rw [run_bind_apply]
  obtain ⟨result, j₁⟩ := m.run j
  cases result with
  | error cause =>
    constructor
    · intro h
      obtain ⟨same, rest⟩ := Prod.mk.inj h
      exact .inl (Prod.ext (congrArg Except.error (Except.error.inj same)) rest)
    · rintro (h | ⟨_, _, same, -⟩)
      · obtain ⟨same, rest⟩ := Prod.mk.inj h
        exact Prod.ext (congrArg Except.error (Except.error.inj same)) rest
      · cases (Prod.mk.inj same).1
  | ok a =>
    constructor
    · exact fun h => .inr ⟨a, j₁, rfl, h⟩
    · rintro (h | ⟨_, _, same, h⟩)
      · cases (Prod.mk.inj h).1
      · obtain ⟨sameValue, rest⟩ := Prod.mk.inj same
        cases sameValue
        cases rest
        exact h

theorem run_ask (backend : Backend) (context : String) (query : Query) (j : Journal) :
    (backend.ask context query).run j =
      (Failure.ofAnswer context (backend j query), j ++ [⟨query, backend j query⟩]) := rfl

theorem journal_ask_bind {backend : Backend} {context : String} {query : Query}
    {g : query.Answer → Inquiry α} (silent : ∀ answer j, ((g answer).run j).2 = j) :
    ((backend.ask context query >>= g).run j).2 = j ++ [⟨query, backend j query⟩] := by
  rw [run_bind_apply, run_ask]
  cases Failure.ofAnswer context (backend j query) with
  | error f => rfl
  | ok answer => exact silent answer _

theorem not_fails_pure {a : α} : ¬ Fails (Pure.pure a) j f j' := fun h => nomatch (Prod.mk.inj h).1

theorem fails_lift {x : Except Failure α} : Fails (liftM x) j f j' ↔ x = .error f ∧ j' = j := by
  constructor
  · intro h
    obtain ⟨result, rest⟩ := Prod.mk.inj (show (x, j) = (.error f, j') from h)
    exact ⟨result, rest.symm⟩
  · rintro ⟨rfl, rfl⟩
    rfl

theorem fails_ask {backend : Backend} {context : String} {query : Query} :
    Fails (backend.ask context query) j f j' ↔ ∃ cause, backend j query = .error cause ∧
      f = .context context (.backend cause) ∧ j' = j ++ [⟨query, .error cause⟩] := by
  unfold Fails
  rw [run_ask]
  cases backend j query with
  | ok answer =>
    constructor
    · intro h
      cases (Prod.mk.inj h).1
    · rintro ⟨_, missing, -⟩
      cases missing
  | error cause =>
    constructor
    · intro h
      obtain ⟨failed, rfl⟩ := Prod.mk.inj h
      exact ⟨cause, rfl, (Except.error.inj failed).symm, rfl⟩
    · rintro ⟨_, missing, rfl, rfl⟩
      cases missing
      rfl

theorem journal_of_fails_ask {backend : Backend} {context : String} {query : Query}
    (h : Fails (backend.ask context query) j f j') :
    ∃ cause, j' = j ++ [⟨query, .error cause⟩] := by
  obtain ⟨cause, -, -, grown⟩ := fails_ask.1 h
  exact ⟨cause, grown⟩

theorem fails_inContext {m : Inquiry α} {text : String} :
    Fails (ExceptT.mk do return Failure.inContext text (← m.run)) j f j' ↔
      ∃ cause, Fails m j cause j' ∧ f = .context text cause := by
  change (Failure.inContext text (m.run j).1, (m.run j).2) = (.error f, j') ↔
    ∃ cause, m.run j = (.error cause, j') ∧ f = .context text cause
  obtain ⟨result, j₁⟩ := m.run j
  constructor
  · intro h
    obtain ⟨failed, rfl⟩ := Prod.mk.inj h
    cases result with
    | error cause => exact ⟨cause, rfl, (Except.error.inj failed).symm⟩
    | ok a => cases failed
  · rintro ⟨cause, same, rfl⟩
    obtain ⟨rfl, rfl⟩ := Prod.mk.inj same
    rfl

/-- What is asked after an exchange stands after it in the journal. -/
theorem Fails.later {backend : Backend} {m : Inquiry α} {e : Exchange} {log : Journal}
    (h : Fails m (j ++ [e]) f (j ++ log)) (asks : Asks backend m.run) :
    ∃ more, log = e :: more ∧ Fails m (j ++ [e]) f (j ++ [e] ++ more) := by
  obtain ⟨more, grown⟩ := asks.grows (j ++ [e])
  rw [show (m.run (j ++ [e])).2 = j ++ log from congrArg Prod.snd h] at grown
  have same : log = e :: more := by
    rw [List.append_assoc] at grown
    exact (List.append_cancel_left grown).symm
  exact ⟨more, same, grown ▸ h⟩

theorem Within.of_fails {kinds : List Failure.Kind} {m : Inquiry α} (h : Within kinds m)
    (fails : Fails m j f j') : f.kind ∈ kinds := h j f (congrArg Prod.fst fails)

end Inquiry

namespace Receipt

/-- A path that does not reach the anchor is a violation; one that is too long is unusable. -/
theorem aborts_iff_of_verify {algorithm : HashAlgorithm} {r : Receipt} {f : Failure}
    (h : r.verify algorithm = .error f) : f.aborts = true ↔ maxSteps < r.steps.length := by
  unfold verify isIntact at h
  by_cases long : r.steps.length > maxSteps
  · rw [if_pos long] at h
    cases h
    exact iff_of_true rfl long
  · rw [if_neg long] at h
    refine iff_of_false ?_ long
    cases reached : decide (r.root algorithm = r.anchor) with
    | true => simp [reached] at h
    | false =>
      rw [reached] at h
      cases h
      simp [Failure.aborts, Failure.kind]

end Receipt

namespace Inclusion

theorem consistent_of_build {backend : Backend} {scope : Url} {chain : String} {index : UInt64}
    {j j' : Journal} {p : Inclusion} (h : (build backend scope chain index).Yields j p j') :
    p.checkConsistency = .ok () := by
  obtain ⟨-, entry, record, text, home, between, -, -, -, start, -, -, accepted, parsed, same⟩ :=
    build_yields.1 h
  have agree := And.intro start (Partition.accepted_text accepted parsed)
  rw [same]
  exact checkConsistency_eq_ok.2 ⟨agree.1, rfl, rfl, agree.2⟩

theorem aborts_iff_of_check {algorithm : HashAlgorithm} {p : Inclusion} {f : Failure}
    (consistent : p.checkConsistency = .ok ()) (h : p.check algorithm = .error f) :
    f.aborts = true ↔ Receipt.maxSteps < p.receipt.steps.length := by
  unfold check at h
  rw [consistent] at h
  change Failure.inContext _ (p.receipt.verify algorithm) = _ at h
  cases replayed : p.receipt.verify algorithm with
  | ok _ =>
    rw [replayed] at h
    cases h
  | error cause =>
    rw [replayed] at h
    cases h
    rw [Failure.aborts_context]
    exact Receipt.aborts_iff_of_verify replayed

end Inclusion

namespace Anchoring
variable {a : Anchoring} {backend : Backend} {source : Url} {root : Hash}
  {j : Journal} {f : Failure}

/-- An anchor record of a root in the authority partition whose path is too long to be looked at. -/
structure Overlong (a : Anchoring) (anchor : Anchor) (source : Url) (root : Hash) : Prop where
  anchored : anchor.anchored = root
  start : anchor.receipt.start = root
  source : Url.parse anchor.sourcePartition = .ok source
  target : Url.parse anchor.targetPartition = .ok a.authority
  long : Receipt.maxSteps < anchor.receipt.steps.length

theorem aborts_iff_of_checkAnchor {anchor : Anchor}
    (h : a.checkAnchor anchor source root = .error f) :
    f.aborts = true ↔ a.Overlong anchor source root := by
  have rejected {reason : String} :
      (Failure.violation (.anchorRecordMismatch reason)).aborts = false :=
    rfl
  unfold checkAnchor at h
  dsimp only at h
  by_cases anchored : anchor.anchored = root
  · rw [if_neg (fun other => other anchored)] at h
    by_cases start : anchor.receipt.start = root
    · rw [if_neg (fun other => other start)] at h
      by_cases spelled : spells anchor.sourcePartition source = true
      · rw [if_neg (by simp [spelled])] at h
        by_cases targeted : spells anchor.targetPartition a.authority = true
        · rw [if_neg (by simp [targeted])] at h
          cases replayed : anchor.receipt.verify a.algorithm with
          | ok _ =>
            rw [replayed] at h
            cases h
          | error cause =>
            rw [replayed] at h
            cases h
            rw [Failure.aborts_context, Receipt.aborts_iff_of_verify replayed]
            exact ⟨fun long =>
              ⟨anchored, start, spells_eq_true.1 spelled, spells_eq_true.1 targeted, long⟩,
              Overlong.long⟩
        · rw [if_pos (by simpa using targeted)] at h
          cases h
          simpa [rejected] using fun o : a.Overlong anchor source root =>
            targeted (spells_eq_true.2 o.target)
      · rw [if_pos (by simpa using spelled)] at h
        cases h
        simpa [rejected] using fun o : a.Overlong anchor source root =>
          spelled (spells_eq_true.2 o.source)
    · rw [if_pos start] at h
      cases h
      simpa [rejected] using fun o : a.Overlong anchor source root => start o.start
  · rw [if_pos anchored] at h
    cases h
    simpa [rejected] using fun o : a.Overlong anchor source root => anchored o.anchored

/-- The second layer asks one question. -/
theorem stateCommitment_journal (backend : Backend) (partition : Url) (root : Hash)
    (height : UInt64) (j : Journal) : ((stateCommitment backend partition root height).run j).2 =
      j ++ [⟨.block partition height, backend j (.block partition height)⟩] := by
  refine Inquiry.journal_ask_bind fun block j => ?_
  cases checkCommits partition root height block <;> rfl

/-- An anchor fails before its authority block is asked for, or the block does and ends nothing. -/
theorem fails_establish {search : AnchorSearch} {anchor : Anchor} {log : Journal}
    (h : (a.establish backend source root search anchor).Fails j f (j ++ log)) :
    (log = [] ∧ (f.aborts = true ↔ a.Overlong anchor source root)) ∨
      (∃ height answer, log = [⟨.block a.authority height, answer⟩]) ∧ f.aborts = false := by
  rcases Inquiry.fails_bind.1 h with h | ⟨_, j₁, checked, h⟩
  · obtain ⟨rejected, same⟩ := Inquiry.fails_lift.1 h
    exact .inl ⟨List.append_right_eq_self.1 same, aborts_iff_of_checkAnchor rejected⟩
  · obtain ⟨-, rfl⟩ := Inquiry.yields_lift.1 checked
    rcases Inquiry.fails_bind.1 h with h | ⟨_, _, _, h⟩
    · obtain ⟨cause, failed, rfl⟩ := Inquiry.fails_inContext.1 h
      have asked := (congrArg Prod.snd failed).symm.trans (stateCommitment_journal backend _ _ _ _)
      have reported : cause.aborts = false :=
        (stateCommitment_within backend _ _ _ _).not_aborts (congrArg Prod.fst failed)
      exact .inr ⟨⟨_, _, List.append_cancel_left asked⟩, reported⟩
    · exact (Inquiry.not_fails_pure h).elim

theorem establish_asks (search : AnchorSearch) (anchor : Anchor) :
    Asks backend (a.establish backend source root search anchor).run :=
  .check_bind fun _ => .inquiry_bind ((stateCommitment_asks _ _).map _) fun _ => .pure _

/-- A search that fails is only unusable for the anchor that was found last. -/
theorem aborts_iff_of_findIn {searches : List AnchorSearch} {log : Journal}
    (h : (a.findIn backend source root searches).Fails j f (j ++ log)) :
    f.aborts = true ↔ ∃ source root search anchor,
      log.getLast? = some ⟨.anchor source a.authority root search, .ok anchor⟩ ∧
        a.Overlong anchor source root := by
  have answer_unique {source' : Url} {root' : Hash} {search search' : AnchorSearch}
      {result result' : Except QueryError Anchor}
      (same : (⟨.anchor source a.authority root search, result⟩ : Exchange) =
        ⟨.anchor source' a.authority root' search', result'⟩) :
      source = source' ∧ root = root' ∧ result = result' := by
    cases same
    exact ⟨rfl, rfl, rfl⟩
  induction searches generalizing j log with
  | nil =>
    obtain ⟨failed, same⟩ :=
      Prod.mk.inj (show (Except.error _, j) = (Except.error f, j ++ log) from h)
    cases failed
    simp [List.append_right_eq_self.1 same.symm, Failure.aborts, Failure.kind, QueryError.kind]
  | cons search others ih =>
    unfold findIn at h
    rcases Inquiry.fails_bind.1 h with h | ⟨answer, j₁, asked, h⟩
    · cases (Prod.mk.inj h).1
    · obtain ⟨sameAnswer, rest⟩ := Prod.mk.inj asked
      obtain rfl := Except.ok.inj sameAnswer
      obtain rfl := rest
      cases answered : backend j (.anchor source a.authority root search) with
      | ok anchor =>
        rw [answered] at h
        obtain ⟨more, rfl, failed⟩ := Inquiry.Fails.later h (establish_asks search anchor)
        rcases fails_establish failed with ⟨rfl, same⟩ | ⟨⟨height, answer, rfl⟩, reported⟩
        · rw [same]
          constructor
          · exact fun long => ⟨source, root, search, anchor, rfl, long⟩
          · rintro ⟨_, _, _, _, last, long⟩
            obtain ⟨rfl, rfl, same⟩ := answer_unique (Option.some.inj last)
            cases same
            exact long
        · refine iff_of_false (by simp [reported]) ?_
          rintro ⟨_, _, _, _, last, -⟩
          cases last
      | error cause =>
        rw [answered] at h
        cases cause with
        | notFound what =>
          obtain ⟨more, rfl, failed⟩ := Inquiry.Fails.later h (findIn_asks others)
          refine (ih failed).trans ?_
          cases more with
          | nil =>
            refine iff_of_false (by simp) ?_
            rintro ⟨_, _, _, _, last, -⟩
            cases (answer_unique (Option.some.inj last)).2.2
          | cons next more => rw [List.getLast?_cons_cons]
        | unavailable reason =>
          obtain ⟨failed, same⟩ :=
            Prod.mk.inj (show (Except.error _, _) = (Except.error f, _) from h)
          obtain rfl := List.append_cancel_left same
          cases failed
          refine iff_of_false (by simp [Failure.aborts, Failure.kind, QueryError.kind]) ?_
          rintro ⟨_, _, _, _, last, -⟩
          cases (answer_unique (Option.some.inj last)).2.2

theorem Searched.grown {searches : List AnchorSearch} {search : AnchorSearch} {anchor : Anchor}
    {j' : Journal} (h : a.Searched backend source root searches j search anchor j') : j <+: j' := by
  induction h with
  | here found => exact found.grown
  | later _ _ ih => exact (List.prefix_append _ _).trans ih

end Anchoring

theorem HeaderTree.checkAppHash_within {block : Block} :
    Failure.Within [.invariantViolation] (checkAppHash block) :=
  .ite (.ok ()) (.error (by simp [Failure.kind]))

namespace Commit
variable {backend : Backend} {partition : Url} {block : Block} {commit : Commit}
  {validators : List Validator} {j : Journal} {f : Failure}

theorem checkMatches_within : Failure.Within [.invariantViolation] (checkMatches block commit) :=
  .ite (.ok ()) (.error (by simp [Failure.kind]))

theorem validPower_within : Failure.Within [.invariantViolation] (validPower validators) := by
  unfold validPower
  cases Validator.totalPower? validators with
  | some total => exact .ok total
  | none => exact .error (by simp [Failure.kind])

/-- The commit is for the block, whose header commits the application hash, but no vote can hold the
height. -/
structure Beyond (block : Block) (commit : Commit) : Prop where
  sameHeight : commit.height = block.height
  sameHash : commit.blockHash = block.blockHash
  header : HeaderTree.committedRoot? block = some block.blockHash
  high : Int64.maxValue.toInt < block.height.toNat

theorem signedHeight_eq_error (failed : signedHeight block = .error f) :
    f.kind = .malformedInput ∧ Int64.maxValue.toInt < block.height.toNat := by
  unfold signedHeight at failed
  split at failed
  · cases failed
  · rename_i high
    cases failed
    exact ⟨rfl, Int.not_le.1 high⟩

theorem not_beyond_of_fits {height : Int64} (fits : height.toInt = block.height.toNat) :
    ¬ Beyond block commit := fun beyond =>
  Int.not_le.2 beyond.high (fits ▸ Int64.toInt_le height)

/-- A count that fails is a violation, unless it fails for nothing but the height. -/
theorem kind_of_tally (failed : tally block commit validators = .error f) :
    Beyond block commit ∧ f.kind = .malformedInput ∨
      ¬ Beyond block commit ∧ f.kind = .invariantViolation := by
  unfold tally at failed
  rcases Failure.bind_eq_error.1 failed with other | ⟨_, matching, failed⟩
  · refine .inr ⟨fun beyond => ?_, List.mem_singleton.1 (checkMatches_within f other)⟩
    cases (checkMatches_eq_ok.2 ⟨beyond.sameHeight, beyond.sameHash⟩).symm.trans other
  have matching := checkMatches_eq_ok.1 matching
  rcases Failure.bind_eq_error.1 failed with uncommitted | ⟨_, header, failed⟩
  · refine .inr ⟨fun beyond => ?_,
      List.mem_singleton.1 (HeaderTree.checkAppHash_within f uncommitted)⟩
    cases (HeaderTree.checkAppHash_eq_ok.2 beyond.header).symm.trans uncommitted
  have header := HeaderTree.checkAppHash_eq_ok.1 header
  rcases Failure.bind_eq_error.1 failed with high | ⟨height, fits, failed⟩
  · obtain ⟨kind, high⟩ := signedHeight_eq_error high
    exact .inl ⟨⟨matching.1, matching.2, header, high⟩, kind⟩
  · refine .inr ⟨not_beyond_of_fits (signedHeight_eq_ok.1 fits), List.mem_singleton.1 ?_⟩
    exact validPower_within.bind (fun _ => .ok _) f failed

/-- What was supplied and is refused is a violation, unless it fails for nothing but its height. -/
theorem kind_of_check (failed : check block commit validators = .error f) :
    Beyond block commit ∧ f.kind = .malformedInput ∨
      ¬ Beyond block commit ∧ f.kind = .invariantViolation := by
  rcases Failure.bind_eq_error.1 failed with uncounted | ⟨⟨finality, t⟩, counted, below⟩
  · exact kind_of_tally uncounted
  · obtain ⟨-, -, height, fits, -⟩ := tally_eq_ok.1 counted
    have decided : Failure.Within [.invariantViolation]
        (if t.hasQuorum then .ok (finality, t) else .error (belowQuorum t)) :=
      .ite (.ok _) (.error (by simp [belowQuorum, Failure.kind]))
    exact .inr ⟨not_beyond_of_fits fits, List.mem_singleton.1 (decided f below)⟩

/-- The check of a commit is only unusable for a height that no vote can hold. -/
theorem aborts_iff_of_check (header : HeaderTree.checkAppHash block = .ok ())
    (h : check block commit validators = .error f) : f.aborts = true ↔
      checkMatches block commit = .ok () ∧ Int64.maxValue.toInt < block.height.toNat := by
  rw [checkMatches_eq_ok]
  rcases kind_of_check h with ⟨beyond, kind⟩ | ⟨fits, kind⟩
  · exact iff_of_true (by simp [Failure.aborts, kind])
      ⟨⟨beyond.sameHeight, beyond.sameHash⟩, beyond.high⟩
  · refine iff_of_false (by simp [Failure.aborts, kind]) fun ⟨own, high⟩ => fits ?_
    exact ⟨own.1, own.2, HeaderTree.checkAppHash_eq_ok.1 header, high⟩

/-- What is fetched and then refused ends with a record that is missing or empty. -/
theorem fails_fetch {height : UInt64} {log : Journal}
    (h : (fetch backend partition height).Fails j f (j ++ log)) : ∃ last, log.getLast? = some last ∧
      ∀ partition height commit, last = ⟨.commit partition height, .ok commit⟩ →
        commit.precommits = [] := by
  rcases Inquiry.fails_bind.1 h with h | ⟨set, j₁, first, h⟩
  · obtain ⟨cause, same⟩ := Inquiry.journal_of_fails_ask h
    obtain rfl := List.append_cancel_left same
    exact ⟨_, rfl, fun _ _ _ other => nomatch other⟩
  · obtain ⟨-, rfl⟩ := Inquiry.yields_ask.1 first
    rcases Inquiry.fails_bind.1 h with h | ⟨_, j₂, present, h⟩
    · obtain rfl := List.append_cancel_left (Inquiry.fails_lift.1 h).2
      exact ⟨_, rfl, fun _ _ _ other => nomatch other⟩
    · obtain ⟨-, rfl⟩ := Inquiry.yields_lift.1 present
      rcases Inquiry.fails_bind.1 h with h | ⟨commit, j₃, second, h⟩
      · obtain ⟨cause, same⟩ := Inquiry.journal_of_fails_ask h
        rw [List.append_assoc] at same
        obtain rfl := List.append_cancel_left same
        exact ⟨_, rfl, fun _ _ _ other => nomatch other⟩
      · obtain ⟨-, rfl⟩ := Inquiry.yields_ask.1 second
        rcases Inquiry.fails_bind.1 h with h | ⟨_, _, _, h⟩
        · obtain ⟨empty, same⟩ := Inquiry.fails_lift.1 h
          rw [List.append_assoc] at same
          obtain rfl := List.append_cancel_left same
          refine ⟨_, rfl, fun _ _ _ own => ?_⟩
          cases own
          cases records : commit.precommits with
          | nil => rfl
          | cons p rest =>
            rw [records] at empty
            cases empty
        · exact (Inquiry.not_fails_pure h).elim

end Commit

end LightClient
