import LightClient.Proofs.Causes
import LightClient.Proofs.Sample

/-!
# The search for an anchor

The intermediate chains are searched before the chain of the authority partition, and only "not
found" leads from one search to the next. So the answers of the backend fall into a course: some
searches that know of no anchor, and then one that ends the matter, with a failure at once or with
an anchor that is checked and followed to its authority block. What is made of an anchor depends on
the anchor and on the answer for its block, and not on the search that had it.
-/
namespace LightClient

namespace Backend

/-- The exchanges of a log are what the backend answers after the journal to one question after the
other. -/
def Answers (backend : Backend) : Journal → Journal → Prop
  | _, [] => True
  | j, e :: log => e.answer = backend j e.query ∧ Answers backend (j ++ [e]) log

end Backend

namespace Anchoring

variable {a : Anchoring} {backend : Backend} {source : Url} {root : Hash} {j log : Journal}
  {search : AnchorSearch} {result : Except Failure AnchoredRoot}

/-- The exchange in which a search for the anchor of a root is answered. -/
def searched (a : Anchoring) (source : Url) (root : Hash) (search : AnchorSearch)
    (answer : Except QueryError Anchor) : Exchange :=
  ⟨.anchor source a.authority root search, answer⟩

/-- The exchange in which an anchor is followed to its authority block. -/
def followed (a : Anchoring) (anchor : Anchor) (answer : Except QueryError Block) : Exchange :=
  ⟨.block a.authority anchor.receipt.localBlock, answer⟩

theorem searched_injective {search' : AnchorSearch} {answer answer' : Except QueryError Anchor}
    (same : a.searched source root search answer = a.searched source root search' answer') :
    search = search' ∧ answer = answer' := by
  cases same
  exact ⟨rfl, rfl⟩

theorem followed_injective {anchor : Anchor} {answer answer' : Except QueryError Block}
    (same : a.followed anchor answer = a.followed anchor answer') : answer = answer' := by
  cases same
  rfl

theorem searched_ne_followed {anchor : Anchor} {answer : Except QueryError Anchor}
    {answer' : Except QueryError Block} :
    a.searched source root search answer ≠ a.followed anchor answer' := fun same => nomatch same

/-- What the answer for its authority block says of an anchor. -/
def confirm (a : Anchoring) (anchor : Anchor) (answer : Except QueryError Block) :
    Except Failure Block :=
  Failure.inContext "authority block does not commit the anchor root" do
    let block ← Failure.ofAnswer s!"querying block {anchor.receipt.localBlock} of {a.authority}"
      answer
    checkCommits a.authority anchor.receipt.anchor anchor.receipt.localBlock block
    return block

theorem confirm_eq_ok {anchor : Anchor} {answer : Except QueryError Block} {block : Block} :
    a.confirm anchor answer = .ok block ↔
      answer = .ok block ∧ block.height = anchor.receipt.localBlock ∧
        block.appHash = anchor.receipt.anchor := by
  unfold confirm
  rw [Failure.inContext_eq_ok, Failure.bind_eq_ok]
  simp only [Failure.ofAnswer_eq_ok, Failure.check_bind_eq_ok, checkCommits_eq_ok]
  constructor
  · rintro ⟨_, answered, commits, returned⟩
    obtain rfl := Except.ok.inj returned
    exact ⟨answered, commits⟩
  · rintro ⟨answered, commits⟩
    exact ⟨block, answered, commits, rfl⟩

theorem confirm_map_eq_ok {anchor : Anchor} {answer : Except QueryError Block}
    {anchored : AnchoredRoot}
    (h : ((a.confirm anchor answer).map fun block => ⟨anchor, block, search⟩) = .ok anchored) :
    anchored.anchor = anchor ∧ anchored.search = search ∧ answer = .ok anchored.authorityBlock ∧
      anchored.authorityBlock.height = anchor.receipt.localBlock ∧
      anchored.authorityBlock.appHash = anchor.receipt.anchor := by
  cases confirmed : a.confirm anchor answer with
  | error f =>
    rw [confirmed] at h
    cases h
  | ok block =>
    rw [confirmed] at h
    cases h
    exact ⟨rfl, rfl, confirm_eq_ok.1 confirmed⟩

theorem stateCommitment_run {partition : Url} {height : UInt64} (j : Journal) :
    (stateCommitment backend partition root height).run j =
      ((do
          let block ← Failure.ofAnswer s!"querying block {height} of {partition}"
            (backend j (.block partition height))
          checkCommits partition root height block
          return block),
        j ++ [⟨.block partition height, backend j (.block partition height)⟩]) := by
  unfold stateCommitment
  rw [Inquiry.run_bind_apply, Inquiry.run_ask]
  cases Failure.ofAnswer _ (backend j (.block partition height)) with
  | error f => rfl
  | ok block =>
    change (liftM (checkCommits partition root height block) >>= fun _ => pure block :
      Inquiry Block).run _ = (checkCommits partition root height block >>= fun _ => pure block, _)
    cases checkCommits partition root height block <;> rfl

/-- An anchor that fails its check is not followed, and one that passes it is. -/
theorem establish_run (anchor : Anchor) (j : Journal) :
    (a.establish backend source root search anchor).run j =
      match a.checkAnchor anchor source root with
      | .error f => (.error f, j)
      | .ok () =>
        ((a.confirm anchor (backend j (.block a.authority anchor.receipt.localBlock))).map
            fun block => ⟨anchor, block, search⟩,
          j ++ [a.followed anchor (backend j (.block a.authority anchor.receipt.localBlock))]) := by
  unfold establish
  rw [Inquiry.run_bind_apply]
  cases a.checkAnchor anchor source root with
  | error f => rfl
  | ok _ =>
    change (_ >>= _ : Inquiry AnchoredRoot).run j = _
    rw [Inquiry.run_bind_apply]
    have confirmed : (ExceptT.mk do
          let block ← (stateCommitment backend a.authority anchor.receipt.anchor
            anchor.receipt.localBlock).run
          return Failure.inContext "authority block does not commit the anchor root" block :
            Inquiry Block).run j =
        (a.confirm anchor (backend j (.block a.authority anchor.receipt.localBlock)),
          j ++ [a.followed anchor (backend j (.block a.authority anchor.receipt.localBlock))]) := by
      change (Failure.inContext _ ((stateCommitment _ _ _ _).run j).1,
        ((stateCommitment _ _ _ _).run j).2) = _
      rw [stateCommitment_run]
      rfl
    rw [confirmed]
    cases a.confirm anchor (backend j (.block a.authority anchor.receipt.localBlock)) <;> rfl

theorem findIn_run {others : List AnchorSearch} (j : Journal) :
    (a.findIn backend source root (search :: others)).run j =
      let answer := backend j (.anchor source a.authority root search)
      let asked := j ++ [a.searched source root search answer]
      match answer with
      | .ok anchor => (a.establish backend source root search anchor).run asked
      | .error (.notFound _) => (a.findIn backend source root others).run asked
      | .error (.unavailable reason) =>
        (.error (.context s!"searching {search.title} anchors of {source}"
          (.backend (.unavailable reason))), asked) := by
  rw [findIn, Inquiry.run_bind_apply]
  change (match backend j (.anchor source a.authority root search) with
    | .ok anchor => a.establish backend source root search anchor
    | .error (.notFound _) => a.findIn backend source root others
    | .error (.unavailable reason) =>
      throw (.context s!"searching {search.title} anchors of {source}"
        (.backend (.unavailable reason))) : Inquiry AnchoredRoot).run
    (j ++ [a.searched source root search (backend j (.anchor source a.authority root search))]) = _
  rcases backend j (.anchor source a.authority root search) with (what | reason) | anchor <;> rfl

/-- How the search that is answered otherwise than "not found" ends: what is asked from there on,
and the result. -/
inductive Ending (a : Anchoring) (source : Url) (root : Hash) (search : AnchorSearch) :
    Journal → Except Failure AnchoredRoot → Prop
  | unavailable (reason : String) : Ending a source root search
      [a.searched source root search (.error (.unavailable reason))]
      (.error (.context s!"searching {search.title} anchors of {source}"
        (.backend (.unavailable reason))))
  | rejected {anchor : Anchor} {f : Failure}
      (failed : a.checkAnchor anchor source root = .error f) :
      Ending a source root search [a.searched source root search (.ok anchor)] (.error f)
  | followed {anchor : Anchor} (passed : a.checkAnchor anchor source root = .ok ())
      (answer : Except QueryError Block) : Ending a source root search
      [a.searched source root search (.ok anchor), a.followed anchor answer]
      ((a.confirm anchor answer).map fun block => ⟨anchor, block, search⟩)

/-- The searches that know of no anchor, and the one after them that ends the matter. -/
inductive Course (a : Anchoring) (source : Url) (root : Hash) :
    List AnchorSearch → Journal → Except Failure AnchoredRoot → Prop
  | exhausted : Course a source root [] []
      (.error (.backend (.notFound s!"anchor of {source} root {root} in {a.authority}")))
  | unknown {search : AnchorSearch} {others : List AnchorSearch} {log : Journal}
      {result : Except Failure AnchoredRoot} (what : String)
      (rest : Course a source root others log result) : Course a source root (search :: others)
      (a.searched source root search (.error (.notFound what)) :: log) result
  | ends {search : AnchorSearch} {others : List AnchorSearch} {log : Journal}
      {result : Except Failure AnchoredRoot} (ending : a.Ending source root search log result) :
      Course a source root (search :: others) log result

/-- Whatever a backend answers, searching for an anchor takes such a course. -/
theorem findIn_course (a : Anchoring) (backend : Backend) (source : Url) (root : Hash)
    (searches : List AnchorSearch) (j : Journal) :
    ∃ log, ((a.findIn backend source root searches).run j).2 = j ++ log ∧ backend.Answers j log ∧
      a.Course source root searches log ((a.findIn backend source root searches).run j).1 := by
  induction searches generalizing j with
  | nil => exact ⟨[], (List.append_nil j).symm, trivial, .exhausted⟩
  | cons search others ih =>
    rw [findIn_run]
    dsimp only
    cases answered : backend j (.anchor source a.authority root search) with
    | ok anchor =>
      dsimp only
      rw [establish_run]
      cases checked : a.checkAnchor anchor source root with
      | error f => exact ⟨_, rfl, ⟨answered.symm, trivial⟩, .ends (.rejected checked)⟩
      | ok _ =>
        exact ⟨_, List.append_assoc .., ⟨answered.symm, rfl, trivial⟩, .ends (.followed checked _)⟩
    | error cause =>
      cases cause with
      | notFound what =>
        obtain ⟨log, grown, answers, course⟩ :=
          ih (j ++ [a.searched source root search (.error (.notFound what))])
        exact ⟨_ :: log, by rw [grown, List.append_assoc]; rfl, ⟨answered.symm, answers⟩,
          .unknown what course⟩
      | unavailable reason => exact ⟨_, rfl, ⟨answered.symm, trivial⟩, .ends (.unavailable reason)⟩

theorem Ending.head (h : a.Ending source root search log result) :
    ∃ answer rest, log = a.searched source root search answer :: rest := by
  cases h <;> exact ⟨_, _, rfl⟩

/-- Such an end is reached by no other search, and with an answer other than "not found". -/
theorem Ending.only (h : a.Ending source root search log result) {other : AnchorSearch}
    {answer : Except QueryError Anchor} (asked : a.searched source root other answer ∈ log) :
    other = search ∧ ∀ what, answer ≠ .error (.notFound what) := by
  cases h with
  | unavailable reason =>
    obtain ⟨rfl, rfl⟩ := searched_injective (List.mem_singleton.1 asked)
    exact ⟨rfl, fun _ same => nomatch same⟩
  | rejected failed =>
    obtain ⟨rfl, rfl⟩ := searched_injective (List.mem_singleton.1 asked)
    exact ⟨rfl, fun _ same => nomatch same⟩
  | followed passed answer =>
    rcases List.mem_cons.1 asked with same | same
    · obtain ⟨rfl, rfl⟩ := searched_injective same
      exact ⟨rfl, fun _ same => nomatch same⟩
    · exact absurd (List.mem_singleton.1 same) searched_ne_followed

/-- What is made of an anchor: either its check fails, and that is the result without another
question, or it is followed, and the one answer for its authority block decides. -/
inductive Settled (a : Anchoring) (source : Url) (root : Hash) (search : AnchorSearch)
    (anchor : Anchor) (log : Journal) : Except Failure AnchoredRoot → Prop
  | rejected {f : Failure} (failed : a.checkAnchor anchor source root = .error f)
      (unasked : ∀ answer, a.followed anchor answer ∉ log) :
      Settled a source root search anchor log (.error f)
  | followed {answer : Except QueryError Block}
      (passed : a.checkAnchor anchor source root = .ok ())
      (asked : a.followed anchor answer ∈ log)
      (only : ∀ other, a.followed anchor other ∈ log → other = answer) :
      Settled a source root search anchor log
        ((a.confirm anchor answer).map fun block => ⟨anchor, block, search⟩)

theorem followed_mem_searched_cons {anchor : Anchor} {answer : Except QueryError Block}
    {found : Except QueryError Anchor} :
    a.followed anchor answer ∈ a.searched source root search found :: log ↔
      a.followed anchor answer ∈ log := by
  simp [searched_ne_followed.symm]

theorem Ending.settled (h : a.Ending source root search log result) {other : AnchorSearch}
    {anchor : Anchor} (found : a.searched source root other (.ok anchor) ∈ log) :
    a.Settled source root other anchor log result := by
  obtain ⟨rfl, -⟩ := h.only found
  cases h with
  | unavailable reason => cases (searched_injective (List.mem_singleton.1 found)).2
  | rejected failed =>
    cases (searched_injective (List.mem_singleton.1 found)).2
    refine .rejected failed fun answer asked => ?_
    exact searched_ne_followed (List.mem_singleton.1 asked).symm
  | followed passed answer =>
    rcases List.mem_cons.1 found with same | same
    · cases (searched_injective same).2
      refine .followed passed (List.mem_cons_of_mem _ List.mem_cons_self) fun answer' asked => ?_
      exact followed_injective (List.mem_singleton.1 (followed_mem_searched_cons.1 asked))
    · exact absurd (List.mem_singleton.1 same) searched_ne_followed

theorem Ending.found_of_ok {anchored : AnchoredRoot}
    (h : a.Ending source root search log (.ok anchored)) :
    a.searched source root anchored.search (.ok anchored.anchor) ∈ log := by
  generalize returned : (Except.ok anchored : Except Failure AnchoredRoot) = result at h
  cases h with
  | unavailable reason => cases returned
  | rejected failed => cases returned
  | followed passed answer =>
    obtain ⟨rfl, rfl, -⟩ := confirm_map_eq_ok returned.symm
    exact List.mem_cons_self

/-- A backend that is unavailable is asked nothing more, and that is the result. -/
theorem Ending.halts (h : a.Ending source root search log result) {e : Exchange} (asked : e ∈ log)
    {reason : String} (down : e.answer = .error (.unavailable reason)) :
    log.getLast? = some e ∧ ∃ f, result = .error f ∧ f.kind = .backendUnavailable := by
  cases h with
  | unavailable reason =>
    obtain rfl := List.mem_singleton.1 asked
    exact ⟨rfl, _, rfl, rfl⟩
  | rejected failed =>
    obtain rfl := List.mem_singleton.1 asked
    cases down
  | followed passed answer =>
    rcases List.mem_cons.1 asked with rfl | asked
    · cases down
    · obtain rfl := List.mem_singleton.1 asked
      obtain rfl : answer = .error (.unavailable reason) := down
      exact ⟨rfl, _, rfl, rfl⟩

section course
variable {searches others : List AnchorSearch}

theorem Course.head (h : a.Course source root (search :: others) log result) :
    ∃ answer rest, log = a.searched source root search answer :: rest := by
  cases h with
  | unknown what rest => exact ⟨_, _, rfl⟩
  | ends ending => exact ending.head

theorem Course.settled (h : a.Course source root searches log result) {anchor : Anchor}
    (found : a.searched source root search (.ok anchor) ∈ log) :
    a.Settled source root search anchor log result := by
  induction h with
  | exhausted => cases found
  | unknown what rest ih =>
    rcases List.mem_cons.1 found with same | found
    · cases (searched_injective same).2
    · cases ih found with
      | rejected failed unasked =>
        exact .rejected failed fun answer asked =>
          unasked answer (followed_mem_searched_cons.1 asked)
      | followed passed asked only =>
        exact .followed passed (List.mem_cons_of_mem _ asked) fun other asked =>
          only other (followed_mem_searched_cons.1 asked)
  | ends ending => exact ending.settled found

theorem Course.found_of_ok {anchored : AnchoredRoot}
    (h : a.Course source root searches log (.ok anchored)) :
    a.searched source root anchored.search (.ok anchored.anchor) ∈ log := by
  generalize returned : (Except.ok anchored : Except Failure AnchoredRoot) = result at h
  induction h with
  | exhausted => cases returned
  | unknown what rest ih => exact List.mem_cons_of_mem _ (ih returned)
  | ends ending =>
    obtain rfl := returned
    exact ending.found_of_ok

theorem Course.halts (h : a.Course source root searches log result) {e : Exchange} (asked : e ∈ log)
    {reason : String} (down : e.answer = .error (.unavailable reason)) :
    log.getLast? = some e ∧ ∃ f, result = .error f ∧ f.kind = .backendUnavailable := by
  induction h with
  | exhausted => cases asked
  | unknown what rest ih =>
    rcases List.mem_cons.1 asked with rfl | asked
    · cases down
    · obtain ⟨last, failed⟩ := ih asked
      exact ⟨by rw [List.getLast?_cons, last]; rfl, failed⟩
  | ends ending => exact ending.halts asked down

end course

/-- The policy of the search for the anchor of a root, over what was asked and the result. -/
structure Policy (a : Anchoring) (source : Url) (root : Hash) (log : Journal)
    (result : Except Failure AnchoredRoot) : Prop where
  /-- The intermediate chains are searched before anything else is asked. -/
  first : ∃ answer rest, log = a.searched source root .intermediate answer :: rest
  /-- The chain of the authority partition is searched if the intermediate chains are answered "not
  found", and only then. -/
  fallback : (∃ answer, a.searched source root .authorityChain answer ∈ log) ↔
    ∃ what, a.searched source root .intermediate (.error (.notFound what)) ∈ log
  /-- The result is an anchor that the recorded search had, that passes its check and that the
  answer for its authority block commits. -/
  sound : ∀ anchored, result = .ok anchored →
    a.searched source root anchored.search (.ok anchored.anchor) ∈ log ∧
      a.checkAnchor anchored.anchor source root = .ok () ∧
      a.followed anchored.anchor (.ok anchored.authorityBlock) ∈ log ∧
      anchored.authorityBlock.height = anchored.anchor.receipt.localBlock ∧
      anchored.authorityBlock.appHash = anchored.anchor.receipt.anchor
  /-- An anchor that passes its check is the result if its authority block commits it. -/
  complete : ∀ search anchor block, a.searched source root search (.ok anchor) ∈ log →
    a.checkAnchor anchor source root = .ok () → a.followed anchor (.ok block) ∈ log →
    block.height = anchor.receipt.localBlock → block.appHash = anchor.receipt.anchor →
    result = .ok ⟨anchor, block, search⟩
  /-- An anchor that fails its check, or that no block at its height commits, is never replaced by
  another one. -/
  firm : ∀ search anchor, a.searched source root search (.ok anchor) ∈ log →
    (a.checkAnchor anchor source root ≠ .ok () ∨
      ∀ block, a.followed anchor (.ok block) ∈ log →
        ¬(block.height = anchor.receipt.localBlock ∧ block.appHash = anchor.receipt.anchor)) →
    ∃ f, result = .error f
  /-- A backend that is unavailable is asked nothing more. -/
  halts : ∀ e ∈ log, ∀ reason, e.answer = .error (.unavailable reason) →
    log.getLast? = some e ∧ ∃ f, result = .error f ∧ f.kind = .backendUnavailable
  /-- Without an anchor in either place, data are missing. -/
  absent : ∀ what what', a.searched source root .intermediate (.error (.notFound what)) ∈ log →
    a.searched source root .authorityChain (.error (.notFound what')) ∈ log →
    ∃ f, result = .error f ∧ f.kind = .missingData

theorem Course.policy (h : a.Course source root [.intermediate, .authorityChain] log result) :
    a.Policy source root log result where
  first := h.head
  fallback := by
    cases h with
    | unknown what rest =>
      obtain ⟨answer, later, rfl⟩ := rest.head
      exact iff_of_true ⟨answer, List.mem_cons_of_mem _ List.mem_cons_self⟩
        ⟨what, List.mem_cons_self⟩
    | ends ending =>
      refine iff_of_false ?_ ?_
      · rintro ⟨_, asked⟩
        cases (ending.only asked).1
      · rintro ⟨what, asked⟩
        exact (ending.only asked).2 what rfl
  sound := by
    rintro anchored rfl
    have found := h.found_of_ok
    generalize returned : (Except.ok anchored : Except Failure AnchoredRoot) = result at h
    cases h.settled found with
    | rejected failed unasked => cases returned
    | followed passed asked only =>
      obtain ⟨-, -, rfl, commits⟩ := confirm_map_eq_ok returned.symm
      exact ⟨found, passed, asked, commits⟩
  complete := by
    intro search anchor block found passed asked height commits
    cases h.settled found with
    | rejected failed unasked => exact absurd asked (unasked _)
    | followed _ _ only =>
      rw [← only _ asked, confirm_eq_ok.2 ⟨rfl, height, commits⟩]
      rfl
  firm := by
    intro search anchor found bad
    cases h.settled found with
    | @rejected f failed unasked => exact ⟨f, rfl⟩
    | @followed answer passed asked only =>
      cases made : (a.confirm anchor answer).map
          fun block => (⟨anchor, block, search⟩ : AnchoredRoot) with
      | error f => exact ⟨f, rfl⟩
      | ok anchored =>
        obtain ⟨-, -, rfl, commits⟩ := confirm_map_eq_ok made
        rcases bad with failed | unfit
        · exact absurd passed failed
        · exact absurd commits (unfit anchored.authorityBlock asked)
  halts := fun e asked reason down => h.halts asked down
  absent := by
    intro what what' unknown unknown'
    cases h with
    | unknown _ rest =>
      cases rest with
      | unknown _ rest =>
        cases rest
        exact ⟨_, rfl, rfl⟩
      | ends ending =>
        rcases List.mem_cons.1 unknown' with same | asked
        · cases (searched_injective same).1
        · exact absurd rfl ((ending.only asked).2 what')
    | ends ending => exact absurd rfl ((ending.only unknown).2 what)

/-- An anchor leads to the same result whichever search has it, if its authority block is answered
alike. -/
theorem find_interchange {backend' : Backend} {j' : Journal} {anchor : Anchor} {what : String}
    (found : backend j (.anchor source a.authority root .intermediate) = .ok anchor)
    (unknown : backend' j' (.anchor source a.authority root .intermediate) =
      .error (.notFound what))
    (found' : backend' (j' ++ [a.searched source root .intermediate (.error (.notFound what))])
      (.anchor source a.authority root .authorityChain) = .ok anchor)
    (alike : backend (j ++ [a.searched source root .intermediate (.ok anchor)])
        (.block a.authority anchor.receipt.localBlock) =
      backend' (j' ++ [a.searched source root .intermediate (.error (.notFound what)),
        a.searched source root .authorityChain (.ok anchor)])
        (.block a.authority anchor.receipt.localBlock)) :
    ((a.find backend' source root).run j').1 = ((a.find backend source root).run j).1.map
      fun anchored => { anchored with search := .authorityChain } := by
  have first : (a.find backend source root).run j =
      (a.establish backend source root .intermediate anchor).run
        (j ++ [a.searched source root .intermediate (.ok anchor)]) := by
    rw [find, findIn_run, found]
  have second : (a.find backend' source root).run j' =
      (a.establish backend' source root .authorityChain anchor).run
        (j' ++ [a.searched source root .intermediate (.error (.notFound what)),
          a.searched source root .authorityChain (.ok anchor)]) := by
    rw [find, findIn_run, unknown]
    dsimp only
    rw [findIn_run, found']
    exact congrArg _ (List.append_assoc ..)
  rw [first, second, establish_run, establish_run, ← alike]
  cases a.checkAnchor anchor source root with
  | error f => rfl
  | ok _ =>
    cases a.confirm anchor (backend _ (.block a.authority anchor.receipt.localBlock)) <;> rfl

/-- Whatever a backend answers, the search for the anchor of a root keeps to its policy. The two
searches differ in nothing but their order and the name in the result. -/
theorem find_follows_policy (a : Anchoring) (source : Url) (root : Hash) :
    (∀ (backend : Backend) (j : Journal), ∃ log,
      ((a.find backend source root).run j).2 = j ++ log ∧ backend.Answers j log ∧
        a.Policy source root log ((a.find backend source root).run j).1) ∧
    ∀ (backend backend' : Backend) (j j' : Journal) (anchor : Anchor) (what : String),
      backend j (.anchor source a.authority root .intermediate) = .ok anchor →
      backend' j' (.anchor source a.authority root .intermediate) = .error (.notFound what) →
      backend' (j' ++ [a.searched source root .intermediate (.error (.notFound what))])
        (.anchor source a.authority root .authorityChain) = .ok anchor →
      backend (j ++ [a.searched source root .intermediate (.ok anchor)])
          (.block a.authority anchor.receipt.localBlock) =
        backend' (j' ++ [a.searched source root .intermediate (.error (.notFound what)),
          a.searched source root .authorityChain (.ok anchor)])
          (.block a.authority anchor.receipt.localBlock) →
      ((a.find backend' source root).run j').1 = ((a.find backend source root).run j).1.map
        fun anchored => { anchored with search := .authorityChain } := by
  refine ⟨fun backend j => ?_, fun _ _ _ _ _ _ => find_interchange⟩
  obtain ⟨log, grown, answers, course⟩ :=
    a.findIn_course backend source root [.intermediate, .authorityChain] j
  exact ⟨log, grown, answers, course.policy⟩

end Anchoring

namespace Anchoring.Sample
open Session.Sample (root block)

theorem normal_partition : Url.Normal "bvn-a.acme".toList "".toList := by
  refine ⟨by decide, by decide, by decide, fun c hc => ?_, by decide, by decide⟩
  have clean : ("bvn-a.acme".toList ++ "".toList).all (fun c => !Text.isBlank c) = true := by decide
  simpa using List.all_eq_true.1 clean c hc

def partition : Url := ⟨"bvn-a.acme", "", normal_partition⟩

def layer : Anchoring := ⟨.sha256, .directory⟩

/-- An anchor of the root of the partition in the first block of the directory. -/
def record : Anchor := ⟨partition.text, Url.directory.text, root, ⟨root, root, 1, []⟩⟩

/-- The same anchor, said to be of another root. -/
def forged : Anchor := { record with anchored := .zero }

/-- A network that answers the two searches as given. -/
def network (intermediate authorityChain : Except QueryError Anchor) : Backend :=
  .fixed fun
    | .anchor _ _ _ .intermediate => intermediate
    | .anchor _ _ _ .authorityChain => authorityChain
    | .block .. => .ok block
    | _ => .error (.notFound "no such record")

/-- A forged anchor among the intermediate chains is an error although the chain of the authority
partition has a good one. That one is found if the intermediate chains know of none, as it is found
among them. -/
theorem forged_anchor_fails :
    (∃ f, ((layer.find (network (.ok forged) (.ok record)) partition root).run []).1 = .error f) ∧
      ((layer.find (network (.ok record) (.error (.notFound "none"))) partition root).run []).1 =
        .ok ⟨record, block, .intermediate⟩ ∧
      ((layer.find (network (.error (.notFound "none")) (.ok record)) partition root).run []).1 =
        .ok ⟨record, block, .authorityChain⟩ := by
  have policy := find_follows_policy layer partition root
  have direct : ((layer.find (network (.ok record) (.error (.notFound "none"))) partition root).run
      []).1 = .ok ⟨record, block, .intermediate⟩ := rfl
  refine ⟨?_, direct, ?_⟩
  · obtain ⟨log, -, answers, kept⟩ := policy.1 (network (.ok forged) (.ok record)) []
    obtain ⟨answer, rest, rfl⟩ := kept.first
    obtain rfl : answer = .ok forged := answers.1
    have foreign : layer.checkAnchor forged partition root ≠ .ok () := fun passed =>
      absurd (checkAnchor_eq_ok.1 passed).anchored (by decide)
    exact kept.firm .intermediate forged List.mem_cons_self (.inl foreign)
  · rw [policy.2 (network (.ok record) (.error (.notFound "none"))) _ []
      [] record "none" rfl rfl rfl
      rfl, direct]
    rfl

end Anchoring.Sample

end LightClient
