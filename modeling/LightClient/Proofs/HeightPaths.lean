import LightClient.Proofs.HandoverForms

/-!
# Heights on the way from genesis

On the way to a height the handovers are followed from zero as long as each starts where the one
before it ended and ends at or below the height. The first that is not followed makes a gap if it
starts elsewhere, even if it ends beyond the height; those after it are not looked at. In handovers
of the right form the heights that are reached are all that lie at or below the target.
-/
namespace LightClient.Handover

/-- The number of leading handovers that each start where the one before it ended, the first of them
at `last`, and end at or below the target. -/
def followed (target last : Int64) (handovers : List Handover) : Nat :=
  (((last :: handovers.map (·.toHeight)).zip handovers).takeWhile fun step =>
    step.2.fromHeight = step.1 ∧ step.2.toHeight ≤ target).length

/-- A height and the heights that the first handovers lead to from there. -/
def heightsFrom (last : Int64) (count : Nat) (handovers : List Handover) : List Int64 :=
  last :: (handovers.take count).map (·.toHeight)

/-- The last height that the first handovers lead to. -/
def reached (last : Int64) (count : Nat) (handovers : List Handover) : Int64 :=
  (heightsFrom last count handovers).getLast (List.cons_ne_nil _ _)

section
variable {target last : Int64} {h : Handover} {rest handovers : List Handover}

theorem followed_cons_of_pos (joins : h.fromHeight = last) (within : h.toHeight ≤ target) :
    followed target last (h :: rest) = followed target h.toHeight rest + 1 := by
  simp [followed, joins, within]

theorem followed_cons_of_neg (stops : ¬ (h.fromHeight = last ∧ h.toHeight ≤ target)) :
    followed target last (h :: rest) = 0 := by
  have first : ¬ (decide (h.fromHeight = last ∧ h.toHeight ≤ target) = true) := by
    simpa using stops
  rw [followed, List.map_cons, List.zip_cons_cons, List.takeWhile_cons, if_neg first]
  rfl

theorem reached_cons (count : Nat) :
    reached last (count + 1) (h :: rest) = reached h.toHeight count rest := rfl

/-- The path goes as far as handovers are followed, and there is none if the next one makes a
gap. -/
theorem pathFrom_eq (target last : Int64) (handovers : List Handover) :
    ((∀ h ∈ handovers[followed target last handovers]?,
        h.fromHeight = reached last (followed target last handovers) handovers) →
      pathFrom target last handovers =
        .ok ((handovers.take (followed target last handovers)).map (·.toHeight))) ∧
    ∀ h ∈ handovers[followed target last handovers]?,
      h.fromHeight ≠ reached last (followed target last handovers) handovers →
      pathFrom target last handovers = .error (.chainDiscontinuity
        (reached last (followed target last handovers) handovers) h.fromHeight) := by
  induction handovers generalizing last with
  | nil => exact ⟨fun _ => rfl, nofun⟩
  | cons first rest ih =>
    rw [pathFrom]
    by_cases joins : first.fromHeight = last
    · rw [if_neg fun gap => gap joins]
      by_cases within : first.toHeight ≤ target
      · have inside : ¬ target < first.toHeight := Int64.not_lt.2 within
        obtain ⟨goesOn, gap⟩ := ih first.toHeight
        rw [if_neg inside, followed_cons_of_pos joins within, List.getElem?_cons_succ, reached_cons]
        constructor
        · intro contiguous
          rw [goesOn contiguous]
          rfl
        · intro h hh apart
          rw [gap h hh apart]
          rfl
      · have beyond : target < first.toHeight := Int64.not_le.1 within
        rw [if_pos beyond, followed_cons_of_neg fun both => within both.2]
        constructor
        · intro _
          rfl
        · intro h hh apart
          cases hh
          exact absurd joins apart
    · rw [if_pos joins, followed_cons_of_neg fun both => joins both.1]
      constructor
      · intro contiguous
        exact absurd (contiguous first rfl) joins
      · intro h hh _
        cases hh
        rfl

theorem heightsFrom_le (nonneg : last ≤ target) :
    ∀ height ∈ heightsFrom last (followed target last handovers) handovers, height ≤ target := by
  induction handovers generalizing last with
  | nil => simpa [heightsFrom] using nonneg
  | cons h rest ih =>
    by_cases follows : h.fromHeight = last ∧ h.toHeight ≤ target
    · rw [followed_cons_of_pos follows.1 follows.2]
      exact List.forall_mem_cons.2 ⟨nonneg, ih follows.2⟩
    · rw [followed_cons_of_neg follows]
      exact List.forall_mem_cons.2 ⟨nonneg, nofun⟩

/-- The heights of handovers of the right form ascend. -/
theorem ascending_of_forms {index : Nat} {previous : Option Int64}
    (forms : checkFormsFrom index previous handovers = .ok ()) :
    (∀ height ∈ previous, ∀ h ∈ handovers, height < h.toHeight) ∧
      handovers.Pairwise fun a b => a.toHeight < b.toHeight := by
  induction handovers generalizing index previous with
  | nil => exact ⟨nofun, .nil⟩
  | cons h rest ih =>
    obtain ⟨form, forms⟩ := checkFormsFrom_cons.1 forms
    have ascends := (wellFormed_iff.2 form).ascends
    obtain ⟨after, ascending⟩ := ih forms
    have later := after h.toHeight rfl
    constructor
    · intro height before
      have first := ascends height before
      exact List.forall_mem_cons.2 ⟨first, fun g hg => Int64.lt_trans first (later g hg)⟩
    · exact List.pairwise_cons.2 ⟨later, ascending⟩

theorem heightsFrom_ascending {index : Nat} {previous : Option Int64}
    (forms : checkFormsFrom index previous handovers = .ok ()) :
    (heightsFrom last (followed target last handovers) handovers).Pairwise (· < ·) := by
  induction handovers generalizing index previous last with
  | nil => exact List.pairwise_singleton _ _
  | cons h rest ih =>
    obtain ⟨form, forms⟩ := checkFormsFrom_cons.1 forms
    have advances := (wellFormed_iff.2 form).advances
    by_cases follows : h.fromHeight = last ∧ h.toHeight ≤ target
    · rw [followed_cons_of_pos follows.1 follows.2]
      have onward : (heightsFrom h.toHeight (followed target h.toHeight rest) rest).Pairwise
          (· < ·) :=
        ih forms
      have up : last < h.toHeight := follows.1 ▸ advances
      apply List.pairwise_cons.2
      refine ⟨List.forall_mem_cons.2 ⟨up, fun height member => ?_⟩, onward⟩
      exact Int64.lt_trans up ((List.pairwise_cons.1 onward).1 height member)
    · rw [followed_cons_of_neg follows]
      exact List.pairwise_singleton _ _

/-- Beyond a handover that ends above the target all others do. -/
theorem heightsFrom_complete {index : Nat} {previous : Option Int64}
    (forms : checkFormsFrom index previous handovers = .ok ())
    (contiguous : ∀ h ∈ handovers[followed target last handovers]?,
      h.fromHeight = reached last (followed target last handovers) handovers) :
    ∀ h ∈ handovers, h.toHeight ≤ target →
      h.toHeight ∈ heightsFrom last (followed target last handovers) handovers := by
  induction handovers generalizing index previous last with
  | nil => exact nofun
  | cons first rest ih =>
    have later := (checkFormsFrom_cons.1 forms).2
    by_cases follows : first.fromHeight = last ∧ first.toHeight ≤ target
    · rw [followed_cons_of_pos follows.1 follows.2] at contiguous ⊢
      have inside : ∀ h ∈ rest, h.toHeight ≤ target →
          h.toHeight ∈ heightsFrom first.toHeight (followed target first.toHeight rest) rest :=
        ih later contiguous
      intro h member within
      rcases List.mem_cons.1 member with rfl | member
      · exact List.mem_cons_of_mem _ List.mem_cons_self
      · exact List.mem_cons_of_mem _ (inside h member within)
    · rw [followed_cons_of_neg follows] at contiguous
      have beyond : target < first.toHeight :=
        Int64.not_le.1 fun within => follows ⟨contiguous first rfl, within⟩
      intro h member within
      rcases List.mem_cons.1 member with rfl | member
      · exact absurd within (Int64.not_le.2 beyond)
      · have above := (ascending_of_forms later).1 first.toHeight rfl h member
        exact absurd within (Int64.not_le.2 (Int64.lt_trans beyond above))

end

/-- Of handovers of the right form the path to a height follows all leading ones that make no gap
and end at or below it. Unless the next one makes a gap, the path is zero and the heights that these
lead to, in ascending order, and holds every height of a handover that is not above the target.
Otherwise the gap is told, between the last height that was reached and the one at which the next
handover starts. No height from zero on is told to be out of reach. -/
theorem heightPath_follows_all {handovers : List Handover} {target : Int64}
    (forms : checkForms handovers = .ok ()) (nonneg : 0 ≤ target) :
    let count := followed target 0 handovers
    let path := heightsFrom 0 count handovers
    ((∀ h ∈ handovers[count]?, h.fromHeight = reached 0 count handovers) →
      heightPath handovers target = .ok path ∧ path.Pairwise (· < ·) ∧
        (∀ height ∈ path, height ≤ target) ∧
        ∀ h ∈ handovers, h.toHeight ≤ target → h.toHeight ∈ path) ∧
    (∀ h ∈ handovers[count]?, h.fromHeight ≠ reached 0 count handovers →
      heightPath handovers target =
        .error (.chainDiscontinuity (reached 0 count handovers) h.fromHeight)) ∧
    ∀ height last, heightPath handovers target ≠ .error (.unreachableHeight height last) := by
  intro count path
  obtain ⟨goesOn, gap⟩ := pathFrom_eq target 0 handovers
  have within : ¬ target < 0 := Int64.not_lt.2 nonneg
  have answer : heightPath handovers target = (pathFrom target 0 handovers).map (0 :: ·) :=
    if_neg within
  have told : ∀ h ∈ handovers[count]?, h.fromHeight ≠ reached 0 count handovers →
      heightPath handovers target =
        .error (.chainDiscontinuity (reached 0 count handovers) h.fromHeight) := by
    intro h hh apart
    rw [answer, gap h hh apart]
    rfl
  have passes : (∀ h ∈ handovers[count]?, h.fromHeight = reached 0 count handovers) →
      heightPath handovers target = .ok path := by
    intro contiguous
    rw [answer, goesOn contiguous]
    rfl
  refine ⟨fun contiguous => ⟨passes contiguous, heightsFrom_ascending forms, heightsFrom_le nonneg,
    heightsFrom_complete forms contiguous⟩, told, fun height last unreached => ?_⟩
  by_cases contiguous : ∀ h ∈ handovers[count]?, h.fromHeight = reached 0 count handovers
  · rw [passes contiguous] at unreached
    cases unreached
  · obtain ⟨h, hh, apart⟩ : ∃ h ∈ handovers[count]?, h.fromHeight ≠ reached 0 count handovers := by
      simpa using contiguous
    rw [told h hh apart] at unreached
    cases unreached

open Session.Sample in
/-- On the way to the fourth block the second handover is not followed and the third not looked at.
On the way to the fifth the third makes a gap. -/
theorem path_of_joins_remains_returns :
    checkForms [joins, remains, returns] = .ok () ∧ (0 : Int64) ≤ 4 ∧ (0 : Int64) ≤ 5 ∧
      heightPath [joins, remains, returns] 4 = .ok [0, 2] ∧
      heightPath [joins, remains, returns] 5 = .error (.chainDiscontinuity 5 2) := by
  have forms : checkForms [joins, remains, returns] = .ok () := by decide
  have short : (0 : Int64) ≤ 4 := by decide
  have long : (0 : Int64) ≤ 5 := by decide
  have second : [joins, remains, returns][followed 4 0 [joins, remains, returns]]? =
      some remains := by decide
  have third : [joins, remains, returns][followed 5 0 [joins, remains, returns]]? =
      some returns := by decide
  obtain ⟨follows, -, -⟩ := heightPath_follows_all forms short
  obtain ⟨-, gap, -⟩ := heightPath_follows_all forms long
  refine ⟨forms, short, long, (follows ?_).1, gap returns third (by decide)⟩
  intro h member
  obtain rfl := Option.some.inj (second.symm.trans member)
  decide

end LightClient.Handover
