import LightClient.Proofs.Positive

/-!
# Data gaps in the layer of block signatures

A backend that has no validator set, no commit or only an empty one has not lied, and whoever reads
the finding must be able to tell. So the layer marks every gap and nothing else: what it was given
and refused is never called a gap, and what it was not given is never called a violation.
-/
namespace LightClient.Commit

variable {backend : Backend} {partition : Url} {height : UInt64} {block : Block} {commit : Commit}
  {validators : List Validator} {j : Journal} {kind : Failure.Kind} {f : Failure}

/-- The first thing that a backend does not supply for the block at a height, with the kind of its
absence. An empty record is one that is not found. -/
inductive Gap (backend : Backend) (partition : Url) (height : UInt64) (j : Journal) :
    Failure.Kind → Prop
  | set {cause : QueryError}
      (answered : backend j (.validatorSet partition height) = .error cause) :
      Gap backend partition height j cause.kind
  | members (answered : backend j (.validatorSet partition height) = .ok []) :
      Gap backend partition height j .missingData
  | commit {validators : List Validator} {cause : QueryError}
      (answered : backend j (.validatorSet partition height) = .ok validators)
      (members : validators ≠ [])
      (answered' : backend (j ++ [⟨.validatorSet partition height, .ok validators⟩])
        (.commit partition height) = .error cause) : Gap backend partition height j cause.kind
  | precommits {validators : List Validator} {commit : Commit}
      (answered : backend j (.validatorSet partition height) = .ok validators)
      (members : validators ≠ [])
      (answered' : backend (j ++ [⟨.validatorSet partition height, .ok validators⟩])
        (.commit partition height) = .ok commit)
      (empty : commit.precommits = []) : Gap backend partition height j .missingData

/-- A backend leaves a gap or supplies all that is asked for. -/
theorem gap_or_fetched (backend : Backend) (partition : Url) (height : UInt64) (j : Journal) :
    (∃ kind, Gap backend partition height j kind) ∨
      ∃ validators commit j', Fetched backend partition height j validators commit j' := by
  cases answered : backend j (.validatorSet partition height) with
  | error cause => exact .inl ⟨_, .set answered⟩
  | ok validators =>
    by_cases members : validators = []
    · exact .inl ⟨_, .members (members ▸ answered)⟩
    · cases answered' : backend (j ++ [⟨.validatorSet partition height, .ok validators⟩])
          (.commit partition height) with
      | error cause => exact .inl ⟨_, .commit answered members answered'⟩
      | ok commit =>
        by_cases empty : commit.precommits = []
        · exact .inl ⟨_, .precommits answered members answered' empty⟩
        · exact .inr ⟨validators, commit, _, ⟨⟨_, ⟨answered, rfl⟩, answered', rfl⟩, members, empty⟩⟩

theorem requireSome_of_empty {α : Type} {what : String} {records : List α} (empty : records = []) :
    requireSome what records = .error (.backend (.notFound what)) := by
  rw [empty]
  rfl

/-- A gap is what the fetch fails for. -/
theorem Gap.fails (h : Gap backend partition height j kind) :
    ∃ f j', (fetch backend partition height).Fails j f j' ∧ f.kind = kind := by
  cases h with
  | set answered =>
    exact ⟨_, _, Inquiry.fails_bind.2 (.inl (Inquiry.fails_ask.2 ⟨_, answered, rfl, rfl⟩)), rfl⟩
  | members answered =>
    exact ⟨_, _, Inquiry.fails_bind.2 (.inr ⟨_, _, Inquiry.yields_ask.2 ⟨answered, rfl⟩,
      Inquiry.fails_bind.2 (.inl (Inquiry.fails_lift.2 ⟨requireSome_of_empty rfl, rfl⟩))⟩), rfl⟩
  | commit answered members answered' =>
    exact ⟨_, _, Inquiry.fails_bind.2 (.inr ⟨_, _, Inquiry.yields_ask.2 ⟨answered, rfl⟩,
      Inquiry.fails_bind.2 (.inr ⟨_, _, Inquiry.yields_lift.2 ⟨requireSome_eq_ok.2 members, rfl⟩,
      Inquiry.fails_bind.2 (.inl (Inquiry.fails_ask.2 ⟨_, answered', rfl, rfl⟩))⟩)⟩), rfl⟩
  | precommits answered members answered' empty =>
    exact ⟨_, _, Inquiry.fails_bind.2 (.inr ⟨_, _, Inquiry.yields_ask.2 ⟨answered, rfl⟩,
      Inquiry.fails_bind.2 (.inr ⟨_, _, Inquiry.yields_lift.2 ⟨requireSome_eq_ok.2 members, rfl⟩,
      Inquiry.fails_bind.2 (.inr ⟨_, _, Inquiry.yields_ask.2 ⟨answered', rfl⟩,
      Inquiry.fails_bind.2 (.inl (Inquiry.fails_lift.2
        ⟨requireSome_of_empty empty, rfl⟩))⟩)⟩)⟩), rfl⟩

/-- The kinds of gaps. -/
theorem Gap.absent (h : Gap backend partition height j kind) :
    kind = .missingData ∨ kind = .backendUnavailable := by
  have answered (cause : QueryError) :
      cause.kind = .missingData ∨ cause.kind = .backendUnavailable := by
    cases cause <;> simp [QueryError.kind]
  cases h with
  | set => exact answered _
  | members => exact .inl rfl
  | commit => exact answered _
  | precommits => exact .inl rfl

/-- What the finding of the layer tells about the answers it rests on. -/
structure TellsGaps (backend : Backend) (partition : Url) (block : Block)
    (j : Journal) (x : Finding) (finality? : Option Finality) : Prop where
  /-- The mark is set for a gap, -/
  marked : x.detail? "data_unavailable" = some (.bool true) ↔
    ∃ kind, Gap backend partition block.height j kind
  /-- and denied if everything is supplied. -/
  denied : x.detail? "data_unavailable" = some (.bool false) ↔
    ∃ validators commit j', Fetched backend partition block.height j validators commit j'
  /-- The first gap is what the layer fails for. -/
  gap : ∀ kind, Gap backend partition block.height j kind →
    (kind = .missingData ∨ kind = .backendUnavailable) ∧ x.valid = false ∧
      x.errorKind = some kind ∧ finality? = none
  /-- What is supplied makes the block final or is refused, as unusable if only the height fails. -/
  supplied : ∀ validators commit j',
    Fetched backend partition block.height j validators commit j' →
      (∃ finality, finality? = some finality ∧ commit.Finalizes block validators finality ∧
          finality.hasQuorum = true ∧ x.valid = true ∧ x.errorKind = none) ∨
        finality? = none ∧ (∀ finality, ¬ commit.Finalizes block validators finality) ∧
          x.valid = false ∧ (x.errorKind = some .malformedInput ∧ Beyond block commit ∨
            x.errorKind = some .invariantViolation ∧ ¬ Beyond block commit)

section marks

@[simp] theorem failedFinding_mark (f : Failure) :
    (failedFinding f).detail? "data_unavailable" = some (.bool (isDataGap f)) := by
  simp [failedFinding, Finding.detail?_withDetail]

@[simp] theorem describeBlock_mark (x : Finding) :
    (describeBlock block commit x).detail? "data_unavailable" = x.detail? "data_unavailable" := by
  simp [describeBlock, Finding.detail?_withDetail]

theorem fetchedFinding_mark (partition : Url) (block : Block) (commit : Commit)
    (validators : List Validator) :
    (fetchedFinding partition block (.ok (validators, commit))).1.detail? "data_unavailable" =
      some (.bool false) := by
  have same : (fetchedFinding partition block (.ok (validators, commit))).1.detail?
      "data_unavailable" = (verify block commit validators).1.detail? "data_unavailable" := by
    simp [fetchedFinding, Finding.detail?_withDetail]
  rw [same]
  cases counted : tally block commit validators with
  | ok result =>
    obtain ⟨finality, t⟩ := result
    by_cases quorum : t.hasQuorum = true <;>
      simp [verify, counted, quorum, Finding.detail?_withDetail]
  | error f =>
    have failed : check block commit validators = .error f := by
      unfold check
      rw [counted]
      rfl
    have supplied : isDataGap f = false := by
      rcases kind_of_check failed with ⟨-, kind⟩ | ⟨-, kind⟩ <;> simp [isDataGap, kind]
    simp [verify, counted, supplied]

theorem fetchedFinding_mark_of_error (partition : Url) (block : Block) (f : Failure) :
    (fetchedFinding partition block (.error f)).1.detail? "data_unavailable" =
      some (.bool (isDataGap f)) := by
  simp [fetchedFinding, Finding.detail?_withDetail]

end marks

theorem verifyFetched_of_run {result : Except Failure (List Validator × Commit)} {j' : Journal}
    (run : (fetch backend partition block.height).run j = (result, j')) :
    (verifyFetched backend partition block j).1 = fetchedFinding partition block result := by
  change fetchedFinding partition block ((fetch backend partition block.height).run j).1 = _
  rw [run]

/-- Nothing is fetched over a gap. -/
theorem Gap.not_fetched {j' : Journal} (h : Gap backend partition height j kind) :
    ¬ Fetched backend partition height j validators commit j' := fun data => by
  obtain ⟨f, _, failed, -⟩ := h.fails
  cases failed.symm.trans (fetch_yields.2 data)

theorem Gap.tells (h : Gap backend partition block.height j kind) :
    TellsGaps backend partition block j (verifyFetched backend partition block j).1.1
      (verifyFetched backend partition block j).1.2 := by
  obtain ⟨f, j', failed, same⟩ := h.fails
  have absent : isDataGap f = true := by
    rcases h.absent with rfl | rfl <;> simp [isDataGap, same]
  have fails := fetchedFinding_unfetched partition block f
  have mark := fetchedFinding_mark_of_error partition block f
  rw [absent] at mark
  rw [verifyFetched_of_run failed]
  refine ⟨iff_of_true mark ⟨kind, h⟩, iff_of_false (by simp [mark]) ?_, ?_, ?_⟩
  · rintro ⟨validators, commit, _, data⟩
    exact h.not_fetched data
  · intro other h'
    obtain ⟨f', _, failed', same'⟩ := h'.fails
    cases failed.symm.trans failed'
    exact ⟨h'.absent, fails.valid, by rw [fails.kind, same'], rfl⟩
  · exact fun validators commit _ data => absurd data h.not_fetched

theorem Fetched.tells {j' : Journal}
    (h : Fetched backend partition block.height j validators commit j') :
    TellsGaps backend partition block j (verifyFetched backend partition block j).1.1
      (verifyFetched backend partition block j).1.2 := by
  have fetched := fetch_yields.2 h
  have mark := fetchedFinding_mark partition block commit validators
  rw [verifyFetched_of_run fetched]
  refine ⟨iff_of_false (by simp [mark]) ?_, iff_of_true mark ⟨validators, commit, j', h⟩, ?_, ?_⟩
  · rintro ⟨kind, gap⟩
    exact gap.not_fetched h
  · exact fun kind gap => absurd h gap.not_fetched
  · intro validators' commit' _ h'
    cases fetched.symm.trans (fetch_yields.2 h')
    have final (finality : Finality) :
        (fetchedFinding partition block (.ok (validators, commit))).2 = some finality ↔
          commit.Finalizes block validators finality := verify_eq_some
    cases checked : check block commit validators with
    | ok result =>
      obtain ⟨finality, t⟩ := result
      obtain ⟨passes, kept⟩ := fetchedFinding_of_ok (p := partition) checked
      have finalizes := (final finality).1 kept
      exact .inl ⟨finality, kept, finalizes, Finality.hasQuorum_of_finalizes finalizes,
        passes.valid, passes.kind⟩
    | error f =>
      obtain ⟨fails, none⟩ := fetchedFinding_of_error (p := partition) checked
      refine .inr ⟨none, fun finality finalizes => ?_, fails.valid, ?_⟩
      · cases none.symm.trans ((final finality).2 finalizes)
      · rw [fails.kind]
        rcases kind_of_check checked with ⟨beyond, kind⟩ | ⟨fits, kind⟩
        · exact .inl ⟨congrArg some kind, beyond⟩
        · exact .inr ⟨congrArg some kind, fits⟩

/-- Whatever a backend answers for a block, the layer of block signatures tells what is missing from
what is wrong. -/
theorem signatures_tell_gaps (backend : Backend) (partition : Url) (block : Block) (j : Journal) :
    TellsGaps backend partition block j (verifyFetched backend partition block j).1.1
      (verifyFetched backend partition block j).1.2 := by
  rcases gap_or_fetched backend partition block.height j with ⟨kind, gap⟩ |
      ⟨validators, commit, j', h⟩
  · exact gap.tells
  · exact h.tells

end LightClient.Commit
