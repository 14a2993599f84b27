import LightClient.Proofs.AnchorSearch
import LightClient.Proofs.Verdicts

/-!
# Rejected anchors

When no anchor is established, the anchor layer tells a record that it rejects, which may be fraud,
from a backend that had none to give. A flag on the finding says which of the two it was. The flag
is read off the kind of the failure, and one check has another kind than the rest: a receipt that is
too long to be looked at is called unusable. Its anchor is rejected like any other, and the flag
denies it.
-/
namespace LightClient

theorem Receipt.verify_within (algorithm : HashAlgorithm) (r : Receipt) :
    Failure.Within [.malformedInput, .invariantViolation] (r.verify algorithm) := by
  unfold verify isIntact
  by_cases long : r.steps.length > maxSteps
  · rw [if_pos long]
    exact .error (by simp [Failure.kind])
  · rw [if_neg long]
    cases decide (r.root algorithm = r.anchor) with
    | true => exact .ok ()
    | false => exact .error (by simp [Failure.kind])

namespace Anchoring

variable {a : Anchoring} {source : Url} {root : Hash} {log : Journal} {search : AnchorSearch}
  {anchor : Anchor} {result : Except Failure AnchoredRoot} {f : Failure}

/-- A search had an anchor that fails its check, or that the block answered for it does not
commit. -/
def Rejects (a : Anchoring) (source : Url) (root : Hash) (log : Journal) : Prop :=
  ∃ search anchor, a.searched source root search (.ok anchor) ∈ log ∧
    (a.checkAnchor anchor source root ≠ .ok () ∨
      ∃ block, a.followed anchor (.ok block) ∈ log ∧
        checkCommits a.authority anchor.receipt.anchor anchor.receipt.localBlock block ≠ .ok ())

/-- A search had an anchor that fails for nothing but the length of its receipt. -/
def FindsOverlong (a : Anchoring) (source : Url) (root : Hash) (log : Journal) : Prop :=
  ∃ search anchor, a.searched source root search (.ok anchor) ∈ log ∧ a.Overlong anchor source root

/-- What the last question is answered. -/
def LastAnswer (log : Journal) (failure? : Option QueryError) : Prop :=
  ∃ e, log.getLast? = some e ∧ match failure? with
    | some cause => e.answer = .error cause
    | none => ∃ answer, e.answer = .ok answer

theorem LastAnswer.cons {failure? : Option QueryError} (h : LastAnswer log failure?)
    (e : Exchange) :
    LastAnswer (e :: log) failure? := by
  obtain ⟨last, found, answered⟩ := h
  exact ⟨last, by rw [List.getLast?_cons, found]; rfl, answered⟩

theorem LastAnswer.unique {failure? other? : Option QueryError} (h : LastAnswer log failure?)
    (h' : LastAnswer log other?) : failure? = other? := by
  obtain ⟨e, last, answered⟩ := h
  obtain ⟨e', last', answered'⟩ := h'
  obtain rfl := Option.some.inj (last.symm.trans last')
  cases failure? with
  | some cause =>
    cases other? with
    | some cause' => rw [Except.error.inj (answered.symm.trans answered')]
    | none =>
      obtain ⟨answer, given⟩ := answered'
      cases answered.symm.trans given
  | none =>
    obtain ⟨answer, given⟩ := answered
    cases other? with
    | some cause' => cases given.symm.trans answered'
    | none => rfl

theorem LastAnswer.not_missing (h : LastAnswer log none) (cause : QueryError) :
    ¬ LastAnswer log (some cause) := fun missing => nomatch missing.unique h

theorem Overlong.fails (h : a.Overlong anchor source root) :
    a.checkAnchor anchor source root ≠ .ok () :=
  fun passed => Nat.not_le.2 h.long (checkAnchor_eq_ok.1 passed).replays.short

theorem FindsOverlong.rejects (h : a.FindsOverlong source root log) :
    a.Rejects source root log := by
  obtain ⟨search, anchor, found, long⟩ := h
  exact ⟨search, anchor, found, .inl long.fails⟩

theorem checkAnchor_within (a : Anchoring) (anchor : Anchor) (source : Url) (root : Hash) :
    Failure.Within [.malformedInput, .invariantViolation] (a.checkAnchor anchor source root) := by
  unfold checkAnchor
  have rejected (reason : String) : Failure.Within [.malformedInput, .invariantViolation]
      (.error (.violation (.anchorRecordMismatch reason)) : Except Failure Unit) :=
    .error (by simp [Failure.kind])
  exact .ite (rejected _) <| .ite (rejected _) <| .ite (rejected _) <| .ite (rejected _) <|
    .inContext (Receipt.verify_within a.algorithm anchor.receipt)

/-- Of an anchor that fails its check, the kind of the failure tells whether it is too long. -/
theorem kind_of_checkAnchor (failed : a.checkAnchor anchor source root = .error f) :
    a.Overlong anchor source root ∧ f.kind = .malformedInput ∨
      ¬ a.Overlong anchor source root ∧ f.kind = .invariantViolation := by
  have long := aborts_iff_of_checkAnchor failed
  have among := a.checkAnchor_within anchor source root f failed
  simp only [List.mem_cons, List.not_mem_nil, or_false] at among
  rcases among with kind | kind
  · exact .inl ⟨long.1 (by simp [Failure.aborts, kind]), kind⟩
  · exact .inr ⟨fun overlong => by simpa [Failure.aborts, kind] using long.2 overlong, kind⟩

/-- An anchor that is followed fails for the answer that is missing or for the block that is
given. -/
theorem kind_of_confirm {answer : Except QueryError Block}
    (failed : a.confirm anchor answer = .error f) :
    (∃ cause, answer = .error cause ∧ f.kind = cause.kind) ∨
      ∃ block, answer = .ok block ∧ f.kind = .invariantViolation ∧
        checkCommits a.authority anchor.receipt.anchor anchor.receipt.localBlock block ≠
          .ok () := by
  cases answer with
  | error cause =>
    cases failed
    exact .inl ⟨cause, rfl, rfl⟩
  | ok block =>
    refine .inr ⟨block, rfl, ?_, fun commits => ?_⟩
    · have commits_within : Failure.Within [.invariantViolation]
          (checkCommits a.authority anchor.receipt.anchor anchor.receipt.localBlock block) :=
        .ite (.error (by simp [Failure.kind])) (.ite (.error (by simp [Failure.kind])) (.ok _))
      exact List.mem_singleton.1
        (Failure.Within.inContext (.bind commits_within fun _ => .ok block) f failed)
    · cases (confirm_eq_ok.2 ⟨rfl, checkCommits_eq_ok.1 commits⟩).symm.trans failed

/-- How a search ends, told by what was answered and by the kind of the failure. -/
inductive Ended (a : Anchoring) (source : Url) (root : Hash) (log : Journal) :
    Except Failure AnchoredRoot → Prop
  | anchored {anchored : AnchoredRoot} (last : LastAnswer log none)
      (accepted : ¬ a.Rejects source root log) : Ended a source root log (.ok anchored)
  | unanswered {cause : QueryError} {f : Failure} (last : LastAnswer log (some cause))
      (accepted : ¬ a.Rejects source root log) (kind : f.kind = cause.kind) :
      Ended a source root log (.error f)
  | overlong {f : Failure} (last : LastAnswer log none) (found : a.FindsOverlong source root log)
      (kind : f.kind = .malformedInput) : Ended a source root log (.error f)
  | refuted {f : Failure} (last : LastAnswer log none) (rejected : a.Rejects source root log)
      (short : ¬ a.FindsOverlong source root log) (kind : f.kind = .invariantViolation) :
      Ended a source root log (.error f)

section unknown
variable {cause : QueryError}

theorem searched_mem_unknown_cons {other : AnchorSearch} :
    a.searched source root search (.ok anchor) ∈
      a.searched source root other (.error cause) :: log ↔
      a.searched source root search (.ok anchor) ∈ log := by
  refine ⟨fun found => ?_, List.mem_cons_of_mem _⟩
  rcases List.mem_cons.1 found with same | found
  · cases (searched_injective same).2
  · exact found

theorem rejects_unknown_cons :
    a.Rejects source root (a.searched source root search (.error cause) :: log) ↔
      a.Rejects source root log := by
  simp only [Rejects, searched_mem_unknown_cons, followed_mem_searched_cons]

theorem findsOverlong_unknown_cons :
    a.FindsOverlong source root (a.searched source root search (.error cause) :: log) ↔
      a.FindsOverlong source root log := by
  simp only [FindsOverlong, searched_mem_unknown_cons]

/-- A search without an anchor before all others changes nothing about the end. -/
theorem Ended.cons (h : a.Ended source root log result) (search : AnchorSearch)
    (cause : QueryError) :
    a.Ended source root (a.searched source root search (.error cause) :: log) result := by
  cases h with
  | anchored last accepted =>
    exact .anchored (last.cons _) (mt rejects_unknown_cons.1 accepted)
  | unanswered last accepted kind =>
    exact .unanswered (last.cons _) (mt rejects_unknown_cons.1 accepted) kind
  | overlong last found kind =>
    exact .overlong (last.cons _) (findsOverlong_unknown_cons.2 found) kind
  | refuted last rejected short kind =>
    exact .refuted (last.cons _) (rejects_unknown_cons.2 rejected)
      (mt findsOverlong_unknown_cons.1 short) kind

/-- Nothing is rejected before a search has an anchor. -/
theorem not_rejects_unknown :
    ¬ a.Rejects source root [a.searched source root search (.error cause)] := by
  rw [rejects_unknown_cons]
  rintro ⟨_, _, found, -⟩
  cases found

end unknown

theorem Ending.ended (h : a.Ending source root search log result) :
    a.Ended source root log result := by
  cases h with
  | unavailable reason => exact .unanswered ⟨_, rfl, rfl⟩ not_rejects_unknown rfl
  | @rejected anchor f failed =>
    have found := List.mem_singleton_self (a.searched source root search (.ok anchor))
    rcases kind_of_checkAnchor failed with ⟨long, kind⟩ | ⟨short, kind⟩
    · exact .overlong ⟨_, rfl, anchor, rfl⟩ ⟨search, anchor, found, long⟩ kind
    · refine .refuted ⟨_, rfl, anchor, rfl⟩ ⟨search, anchor, found, .inl (by simp [failed])⟩ ?_ kind
      rintro ⟨_, other, asked, long⟩
      cases (searched_injective (List.mem_singleton.1 asked)).2
      exact short long
  | @followed anchor passed answer =>
    have found : a.searched source root search (.ok anchor) ∈
      [a.searched source root search (.ok anchor), a.followed anchor answer] := List.mem_cons_self
    have asked : a.followed anchor answer ∈
      [a.searched source root search (.ok anchor), a.followed anchor answer] := by simp
    -- no other anchor is found, and no other answer is given for its block
    have only {other : AnchorSearch} {anchor' : Anchor}
        (found' : a.searched source root other (.ok anchor') ∈
          [a.searched source root search (.ok anchor), a.followed anchor answer]) :
        anchor' = anchor := by
      rcases List.mem_cons.1 found' with same | same
      · exact Except.ok.inj (searched_injective same).2
      · exact absurd (List.mem_singleton.1 same) searched_ne_followed
    have answered {block : Block} (asked' : a.followed anchor (.ok block) ∈
        [a.searched source root search (.ok anchor), a.followed anchor answer]) :
        answer = .ok block :=
      (followed_injective (List.mem_singleton.1 (followed_mem_searched_cons.1 asked'))).symm
    have accepted (fits : ∀ block, answer = .ok block →
        checkCommits a.authority anchor.receipt.anchor anchor.receipt.localBlock block = .ok ()) :
        ¬ a.Rejects source root
          [a.searched source root search (.ok anchor), a.followed anchor answer] := by
      rintro ⟨_, other, found', failed | ⟨block, asked', unfit⟩⟩
      · cases only found'
        exact failed passed
      · cases only found'
        exact unfit (fits block (answered asked'))
    cases confirmed : a.confirm anchor answer with
    | ok block =>
      obtain ⟨rfl, commits⟩ := confirm_eq_ok.1 confirmed
      refine .anchored ⟨_, rfl, block, rfl⟩ (accepted fun block' same => ?_)
      cases same
      exact checkCommits_eq_ok.2 commits
    | error f =>
      rcases kind_of_confirm confirmed with ⟨cause, rfl, kind⟩ | ⟨block, rfl, kind, unfit⟩
      · exact .unanswered ⟨_, rfl, rfl⟩ (accepted fun _ same => nomatch same) kind
      · refine .refuted ⟨_, rfl, block, rfl⟩
          ⟨search, anchor, found, .inr ⟨block, asked, unfit⟩⟩ ?_ kind
        rintro ⟨_, other, found', long⟩
        cases only found'
        exact long.fails passed

theorem Course.ended_after {searches : List AnchorSearch}
    (h : a.Course source root searches log result) (search : AnchorSearch) (what : String) :
    a.Ended source root
      (a.searched source root search (.error (.notFound what)) :: log) result := by
  induction h generalizing search what with
  | exhausted => exact .unanswered ⟨_, rfl, rfl⟩ not_rejects_unknown rfl
  | unknown what' _ ih => exact (ih _ what').cons search _
  | ends ending => exact ending.ended.cons search _

theorem Course.ended {others : List AnchorSearch}
    (h : a.Course source root (search :: others) log result) : a.Ended source root log result := by
  cases h with
  | unknown what rest => exact rest.ended_after search what
  | ends ending => exact ending.ended

/-- What the finding of the anchor layer and its flag tell, over what was answered. -/
structure Flagged (a : Anchoring) (source : Url) (root : Hash) (log : Journal) (x : Finding) :
    Prop where
  /-- The layer fails exactly if an anchor is rejected or the last question is not answered. -/
  failed : x.valid = false ↔ a.Rejects source root log ∨ ∃ cause, LastAnswer log (some cause)
  /-- It is never both. -/
  apart : a.Rejects source root log → LastAnswer log none
  /-- An answer that is missing is what the failure tells. -/
  unanswered : ∀ cause, LastAnswer log (some cause) → x.errorKind = some cause.kind
  /-- The flag is up if an anchor is rejected that is not just too long. -/
  raised : x.detail? "anchor_rejected" = some (.bool true) ↔
    a.Rejects source root log ∧ ¬ a.FindsOverlong source root log
  /-- It is down if the last question is not answered, and if an anchor is just too long. -/
  lowered : x.detail? "anchor_rejected" = some (.bool false) ↔
    (∃ cause, LastAnswer log (some cause)) ∨ a.FindsOverlong source root log
  /-- An anchor that is just too long is rejected as unusable. -/
  overlong : a.FindsOverlong source root log →
    a.Rejects source root log ∧ x.errorKind = some .malformedInput
  /-- Otherwise there is no flag. -/
  unflagged : x.detail? "anchor_rejected" = none ↔ x.valid = true

@[simp] theorem anchorFinding_flag_of_error (f : Failure) :
    (a.anchorFinding source root (.error f)).1.detail? "anchor_rejected" =
      some (.bool (f.kind = .invariantViolation)) := by
  simp [anchorFinding, Finding.detail?_withDetail]

@[simp] theorem anchorFinding_flag_of_ok (anchored : AnchoredRoot) :
    (a.anchorFinding source root (.ok anchored)).1.detail? "anchor_rejected" = none := by
  simp only [anchorFinding, Finding.detail?_withDetail]
  rfl

theorem Ended.flagged (h : a.Ended source root log result) :
    a.Flagged source root log (a.anchorFinding source root result).1 := by
  cases h with
  | @anchored anchored last accepted =>
    have passes := anchorFinding_passes a source root anchored
    have short := mt FindsOverlong.rejects accepted
    exact ⟨by simp [passes.valid, accepted, last.not_missing],
      fun rejected => absurd rejected accepted,
      fun cause missing => absurd missing (last.not_missing cause), by simp [accepted],
      by simp [last.not_missing, short], fun long => absurd long short, by simp [passes.valid]⟩
  | @unanswered cause f last accepted kind =>
    have fails := anchorFinding_fails a source root f
    have short := mt FindsOverlong.rejects accepted
    have unrefuted : f.kind ≠ .invariantViolation := by
      rw [kind]
      cases cause <;> simp [QueryError.kind]
    refine ⟨iff_of_true fails.valid (.inr ⟨cause, last⟩), fun rejected => absurd rejected accepted,
      fun cause' missing => ?_, by simp [accepted, unrefuted], ?_, fun long => absurd long short,
      by simp [fails.valid]⟩
    · obtain rfl := Option.some.inj (missing.unique last)
      rw [fails.kind, kind]
    · exact iff_of_true (by simp [unrefuted]) (.inl ⟨cause, last⟩)
  | @overlong f last found kind =>
    have fails := anchorFinding_fails a source root f
    exact ⟨iff_of_true fails.valid (.inl found.rejects), fun _ => last,
      fun cause missing => absurd missing (last.not_missing cause), by simp [found, kind],
      by simp [found, kind],
      fun _ => ⟨found.rejects, by rw [fails.kind, kind]⟩, by simp [fails.valid]⟩
  | @refuted f last rejected short kind =>
    have fails := anchorFinding_fails a source root f
    exact ⟨iff_of_true fails.valid (.inl rejected), fun _ => last,
      fun cause missing => absurd missing (last.not_missing cause), by simp [rejected, short, kind],
      by simp [last.not_missing, short, kind], fun long => absurd long short, by simp [fails.valid]⟩

/-- The first anchor that is found ends the search if it fails its check. -/
theorem verifyAnchor_of_rejected {backend : Backend} {j : Journal}
    (found : backend j (.anchor source a.authority root .intermediate) = .ok anchor)
    (failed : a.checkAnchor anchor source root = .error f) :
    a.verifyAnchor backend source root j = (((a.anchorFinding source root (.error f)).1, none),
      j ++ [a.searched source root .intermediate (.ok anchor)]) := by
  have run : (a.find backend source root).run j =
      (.error f, j ++ [a.searched source root .intermediate (.ok anchor)]) := by
    rw [find, findIn_run, found]
    dsimp only
    rw [establish_run, failed]
  change (a.anchorFinding source root ((a.find backend source root).run j).1,
    ((a.find backend source root).run j).2) = _
  rw [run]
  rfl

/-- Whatever a backend answers, the flag of the anchor layer says that an anchor is rejected if one
is, unless the anchor is only too long, and that data are missing if they are. -/
theorem anchor_flag_tells_rejection (a : Anchoring) (backend : Backend) (source : Url) (root : Hash)
    (j : Journal) : ∃ log, (a.verifyAnchor backend source root j).2 = j ++ log ∧
      backend.Answers j log ∧
      a.Flagged source root log (a.verifyAnchor backend source root j).1.1 := by
  obtain ⟨log, grown, answers, course⟩ :=
    a.findIn_course backend source root [.intermediate, .authorityChain] j
  exact ⟨log, grown, answers, course.ended.flagged⟩

end Anchoring

namespace Anchoring.Sample
open Session.Sample (root block)

/-- An anchor with one sibling more than a receipt may have. -/
def endless : Anchor :=
  { record with receipt := ⟨root, root, 1, List.replicate (Receipt.maxSteps + 1) ⟨.zero, true⟩⟩ }

theorem endless_overlong : layer.Overlong endless partition root where
  anchored := rfl
  start := rfl
  source := Url.parse_text partition
  target := Url.parse_text _
  long := by simp [endless]

/-- A backend that always has this anchor is one that supplied data which are refused, and the flag
says that it had none. -/
theorem endless_anchor_unflagged : ∃ log x,
    layer.verifyAnchor (network (.ok endless) (.ok endless)) partition root [] = ((x, none), log) ∧
      x.valid = false ∧ layer.Rejects partition root log ∧
      (∀ cause, ¬ LastAnswer log (some cause)) ∧
      x.detail? "anchor_rejected" = some (.bool false) := by
  obtain ⟨f, failed⟩ : ∃ f, layer.checkAnchor endless partition root = .error f := by
    cases checked : layer.checkAnchor endless partition root with
    | error f => exact ⟨f, rfl⟩
    | ok _ => exact absurd checked endless_overlong.fails
  have kind : f.kind = .malformedInput := by
    rcases kind_of_checkAnchor failed with ⟨-, kind⟩ | ⟨short, -⟩
    · exact kind
    · exact absurd endless_overlong short
  have last : LastAnswer [layer.searched partition root .intermediate (.ok endless)] none :=
    ⟨_, rfl, endless, rfl⟩
  refine ⟨[layer.searched partition root .intermediate (.ok endless)],
    (layer.anchorFinding partition root (.error f)).1, verifyAnchor_of_rejected rfl failed,
    ?_, ?_, ?_, ?_⟩
  · exact (anchorFinding_fails layer partition root f).valid
  · exact ⟨.intermediate, endless, List.mem_singleton_self _, .inl endless_overlong.fails⟩
  · exact last.not_missing
  · simp [kind]

end Anchoring.Sample

end LightClient
