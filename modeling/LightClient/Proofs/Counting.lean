import LightClient.Proofs.Accountability

/-!
# What a tally counts

A tally goes through the precommits one after the other and remembers whom it has counted. What it
comes to can be told without an order: it is the power and the number of the members that have a
valid precommit somewhere, each under the last entry of its address. So nothing that is added to a
commit, at whatever place, takes away from its power.
-/
namespace LightClient

namespace Validator

/-- A member is the last one of a list that has its address. -/
def IsLast (validators : List Validator) (v : Validator) : Prop :=
  ∃ before after, validators = before ++ v :: after ∧ ∀ w ∈ after, w.address ≠ v.address

theorem isLast_cons {v w : Validator} {rest : List Validator} :
    IsLast (w :: rest) v ↔ IsLast rest v ∨ v = w ∧ ∀ u ∈ rest, u.address ≠ w.address := by
  constructor
  · intro h
    obtain ⟨before, after, equal, unique⟩ := h
    cases before with
    | nil =>
      obtain ⟨rfl, rfl⟩ := List.cons.inj equal
      exact .inr ⟨rfl, unique⟩
    | cons _ before =>
      obtain ⟨-, rest_eq⟩ := List.cons.inj equal
      exact .inl ⟨before, after, rest_eq, unique⟩
  · rintro (⟨before, after, rfl, unique⟩ | ⟨rfl, unique⟩)
    · exact ⟨w :: before, after, rfl, unique⟩
    · exact ⟨[], rest, rfl, unique⟩

theorem mem_standing_iff {validators : List Validator} {v : Validator} :
    v ∈ standing validators ↔ IsLast validators v := by
  induction validators with
  | nil => simp [standing, IsLast]
  | cons w rest ih => rw [mem_standing_cons, ih, isLast_cons]

/-- Where no address occurs twice, every entry counts. -/
theorem standing_eq_self {validators : List Validator}
    (distinct : (validators.map (·.address)).Nodup) :
    standing validators = validators := by
  induction validators with
  | nil => rfl
  | cons v rest ih =>
    obtain ⟨fresh, later⟩ := List.nodup_cons.1 distinct
    have free : rest.any (·.address == v.address) = false := by
      rw [List.any_eq_false]
      intro w member same
      exact fresh (List.mem_map.2 ⟨w, member, by simpa using same⟩)
    rw [standing, free, ih later]
    rfl

theorem powerSum_perm {validators validators' : List Validator} (h : validators'.Perm validators) :
    powerSum validators' = powerSum validators := by
  induction h with
  | nil => rfl
  | cons v _ ih => rw [powerSum_cons, powerSum_cons, ih]
  | swap v w rest =>
    simp only [powerSum_cons]
    omega
  | trans _ _ first second => rw [first, second]

theorem bounded_perm {validators validators' : List Validator} (h : validators'.Perm validators)
    (bounded : Bounded validators) : Bounded validators' := by
  refine ⟨fun v member => bounded.nonneg v (h.mem_iff.1 member), ?_⟩
  rw [powerSum_perm h]
  exact bounded.fits

/-- No sum on the way to the power of a set overflows: the sum at each member is the true one. -/
theorem totalPower?_of_prefix {validators part : List Validator} (bounded : Bounded validators)
    (first : part <+: validators) :
    ∃ sum, totalPower? part = some sum ∧ sum.toInt = powerSum part := by
  have nonneg : ∀ v ∈ part, 0 ≤ v.power.toInt := fun v member =>
    bounded.nonneg v (first.subset member)
  have fits : powerSum part ≤ Int64.maxValue.toInt :=
    Int.le_trans (powerSum_le_of_sublist first.sublist bounded.nonneg) bounded.fits
  obtain ⟨sum, found⟩ := Option.isSome_iff_exists.1 (totalPower?_isSome.2 ⟨nonneg, fits⟩)
  exact ⟨sum, found, (totalPower?_eq_some.1 found).2⟩

variable {validators : List Validator} {isValid : Validator → Precommit → Bool}

theorem signatories_distinct (precommits : List Precommit) :
    (signatories validators isValid precommits).Pairwise fun v w => v.address ≠ w.address :=
  (standing_distinct validators).filter _

theorem mem_signatories {precommits : List Precommit} {v : Validator} :
    v ∈ signatories validators isValid precommits ↔
      IsLast validators v ∧ ∃ p ∈ precommits, p.address = v.address ∧ isValid v p = true := by
  simp [signatories, hasSigned, mem_standing_iff]

/-- Whose precommits are valid does not depend on their order. -/
theorem signatories_perm {precommits precommits' : List Precommit}
    (h : precommits'.Perm precommits) :
    signatories validators isValid precommits' = signatories validators isValid precommits := by
  refine List.filter_congr fun v _ => ?_
  exact h.any_eq

/-- Those that have signed remain so when precommits are added. -/
theorem signatories_append_sublist (precommits extra : List Precommit) :
    (signatories validators isValid precommits).Sublist
      (signatories validators isValid (precommits ++ extra)) := by
  have kept : (signatories validators isValid (precommits ++ extra)).filter
      (hasSigned isValid precommits) = signatories validators isValid precommits := by
    rw [signatories, List.filter_filter]
    refine List.filter_congr fun v _ => ?_
    rw [hasSigned, hasSigned, List.any_append]
    cases precommits.any fun p => p.address == v.address && isValid v p <;> rfl
  rw [← kept]
  exact List.filter_sublist

/-- Precommits that are valid only for those that have signed anyway add nobody. -/
theorem signatories_append_idle {precommits extra : List Precommit}
    (idle : ∀ p ∈ extra, ∀ v, IsLast validators v → v.address = p.address → isValid v p = true →
      hasSigned isValid precommits v = true) :
    signatories validators isValid (precommits ++ extra) =
      signatories validators isValid precommits := by
  refine List.filter_congr fun v member => ?_
  rw [hasSigned, List.any_append]
  cases new : extra.any fun p => p.address == v.address && isValid v p with
  | false => exact Bool.or_false _
  | true =>
    obtain ⟨p, hp, valid⟩ := List.any_eq_true.1 new
    simp only [Bool.and_eq_true, beq_iff_eq] at valid
    rw [Bool.or_true, idle p hp v (mem_standing_iff.1 member) valid.1.symm valid.2]

/-- In another order of the set the same members have signed, if no address occurs twice. -/
theorem signatories_perm_members {validators' : List Validator} (precommits : List Precommit)
    (h : validators'.Perm validators) (distinct : (validators.map (·.address)).Nodup) :
    (signatories validators' isValid precommits).Perm
      (signatories validators isValid precommits) := by
  have distinct' := (h.map (·.address)).nodup_iff.2 distinct
  rw [signatories, signatories, standing_eq_self distinct, standing_eq_self distinct']
  exact h.filter _

end Validator

namespace Tally
open Validator

section
variable (validators : List Validator) (isValid : Validator → Precommit → Bool)

/-- Whether a precommit is under an address that no member has. -/
def isUnknown (p : Precommit) : Bool := !validators.any (·.address == p.address)

/-- The books of the loop: everyone is counted once, and every precommit is in one of the
counters. -/
structure Booked (done : List Precommit) (state : List Bytes × Tally) : Prop where
  once : state.1.Nodup
  signers : state.2.signers = state.1.length
  unknown : state.2.skippedUnknown = done.countP (isUnknown validators)
  each : state.2.signers + state.2.skippedUnknown + state.2.skippedDuplicate + state.2.invalid
    = done.length

/-- What the counters of a tally stand for, whatever order the precommits have come in. -/
structure Exact (precommits : List Precommit) (t : Tally) : Prop where
  signedPower : t.signedPower.toInt = powerSum (signatories validators isValid precommits)
  signers : t.signers = (signatories validators isValid precommits).length
  skippedUnknown : t.skippedUnknown = precommits.countP (isUnknown validators)
  each : t.signers + t.skippedUnknown + t.skippedDuplicate + t.invalid = precommits.length

variable {validators isValid} {total : Int64}

theorem isUnknown_of_find? {p : Precommit} :
    isUnknown validators p = (find? validators p.address).isNone := by
  rw [isUnknown, Bool.eq_iff_iff, Option.isNone_iff_eq_none, find?_eq_none]
  simp

/-- One precommit goes into one counter, and whoever is counted for it was not counted before. -/
theorem Booked.step {done : List Precommit} {state : List Bytes × Tally} (p : Precommit)
    (h : Booked validators done state) :
    Booked validators (done ++ [p]) (step validators isValid state p) := by
  obtain ⟨counted, t⟩ := state
  obtain ⟨once, signers, unknown, each⟩ := h
  dsimp only at once signers unknown each
  have count : (done ++ [p]).countP (isUnknown validators) =
      done.countP (isUnknown validators) +
        if (find? validators p.address).isNone then 1 else 0 := by
    rw [List.countP_append, List.countP_singleton, isUnknown_of_find?]
  unfold Tally.step
  dsimp only
  cases found : find? validators p.address with
  | none =>
    rw [found] at count
    refine ⟨once, signers, ?_, ?_⟩
    · rw [count, ← unknown]
      rfl
    · simp only [List.length_append, List.length_singleton]
      omega
  | some v =>
    rw [found] at count
    have same : t.skippedUnknown = (done ++ [p]).countP (isUnknown validators) := by
      rw [count, unknown]
      rfl
    dsimp only
    split
    · refine ⟨once, signers, same, ?_⟩
      simp only [List.length_append, List.length_singleton]
      omega
    · rename_i fresh
      split
      · refine ⟨List.nodup_cons.2 ⟨fresh, once⟩, ?_, same, ?_⟩
        · rw [List.length_cons, signers]
        · simp only [List.length_append, List.length_singleton]
          omega
      · refine ⟨once, signers, same, ?_⟩
        simp only [List.length_append, List.length_singleton]
        omega

theorem Booked.foldl {done : List Precommit} {state : List Bytes × Tally}
    (h : Booked validators done state) (rest : List Precommit) :
    Booked validators (done ++ rest) (rest.foldl (Tally.step validators isValid) state) := by
  induction rest generalizing done state with
  | nil => simpa using h
  | cons p rest ih =>
    have next : Booked validators (done ++ [p]) (Tally.step validators isValid state p) := h.step p
    have later := ih next
    rwa [List.append_assoc, List.singleton_append] at later

/-- The count of any precommits is exact: the sum does not overflow, and nothing is left out. -/
theorem exact_count (bounded : Bounded validators) (precommits : List Precommit) :
    Exact validators isValid precommits (count validators isValid total precommits) := by
  have start : Booked validators [] ([], Tally.start total) := ⟨.nil, rfl, rfl, rfl⟩
  have booked : Booked validators precommits
      (precommits.foldl (Tally.step validators isValid) ([], Tally.start total)) :=
    start.foldl precommits
  obtain ⟨once, signers, unknown, each⟩ := booked
  have first : Counted validators isValid total [] ([], Tally.start total) := counted_start
  have counted := first.foldl bounded precommits
  -- The addresses that are counted are those of the signatories, without repetition on either side.
  have addresses : (precommits.foldl (Tally.step validators isValid) ([], Tally.start total)).1.Perm
      ((signatories validators isValid precommits).map (·.address)) := by
    refine (List.perm_ext_iff_of_nodup once ?_).2 fun address => ?_
    · exact List.pairwise_map.2 (signatories_distinct precommits)
    · exact (counted.mem_iff address).trans List.mem_map.symm
  refine ⟨counted.signedPower, ?_, unknown, each⟩
  exact signers.trans (addresses.length_eq.trans (List.length_map _))

variable (isValid total) in
/-- The powers that stand for the set do not depend on the precommits. -/
theorem powers_count (bounded : Bounded validators) (precommits : List Precommit) :
    (count validators isValid total precommits).totalPower = total ∧
      (count validators isValid total precommits).requiredPower = quorumThreshold total := by
  obtain ⟨_, counted⟩ := counted_all isValid total bounded precommits
  exact ⟨counted.totalPower, counted.requiredPower⟩

/-- Two tallies agree on who has signed. -/
structure Agrees (t t' : Tally) : Prop where
  signedPower : t'.signedPower = t.signedPower
  signers : t'.signers = t.signers
  hasQuorum : t'.hasQuorum = t.hasQuorum

/-- Tallies for one total agree if they count members with the same power and number. -/
theorem agrees_of_exact {validators' : List Validator} {isValid' : Validator → Precommit → Bool}
    {precommits precommits' : List Precommit} {t t' : Tally}
    (exact : Exact validators isValid precommits t)
    (exact' : Exact validators' isValid' precommits' t')
    (required : t'.requiredPower = t.requiredPower)
    (same : (signatories validators' isValid' precommits').Perm
      (signatories validators isValid precommits)) : Agrees t t' := by
  have power : t'.signedPower = t.signedPower := by
    apply Int64.toInt_inj.1
    rw [exact'.signedPower, exact.signedPower, powerSum_perm same]
  refine ⟨power, ?_, ?_⟩
  · rw [exact'.signers, exact.signers, same.length_eq]
  · rw [Tally.hasQuorum, Tally.hasQuorum, power, required]

/-- More power for the same total keeps a quorum. -/
theorem hasQuorum_mono {t t' : Tally} (required : t'.requiredPower = t.requiredPower)
    (more : t.signedPower ≤ t'.signedPower) (quorum : t.hasQuorum = true) :
    t'.hasQuorum = true := by
  rw [hasQuorum, decide_eq_true_iff] at quorum ⊢
  rw [required]
  exact Int64.le_trans quorum more

end

end Tally

namespace Commit
open Validator

/-- A precommit that a commit can do without: no member has its address, or it is not valid under
the last entry of its address, or it is in the commit already, or its member has voted in the
commit. -/
inductive Idle (block : Block) (commit : Commit) (validators : List Validator) (height : Int64)
    (p : Precommit) : Prop where
  | unknown (absent : ∀ v ∈ validators, v.address ≠ p.address)
  | forged (v : Validator) (last : IsLast validators v) (own : v.address = p.address)
      (invalid : isSignedBy block height commit.round v p = false)
  | copied (member : p ∈ commit.precommits)
  | repeated (v : Validator) (last : IsLast validators v) (own : v.address = p.address)
      (voted : commit.hasVoteOf block height v = true)

theorem isLast_unique {validators : List Validator} {v w : Validator} (first : IsLast validators v)
    (second : IsLast validators w) (same : v.address = w.address) : v = w := by
  have here := find?_eq_some.2 ⟨mem_standing_iff.2 first, same⟩
  rw [find?_eq_some.2 ⟨mem_standing_iff.2 second, rfl⟩] at here
  exact (Option.some.inj here).symm

/-- What is idle is valid only for members that have voted anyway. -/
theorem Idle.voted {block : Block} {commit : Commit} {validators : List Validator} {height : Int64}
    {p : Precommit} (idle : Idle block commit validators height p) {v : Validator}
    (last : IsLast validators v) (own : v.address = p.address)
    (valid : isSignedBy block height commit.round v p = true) :
    commit.hasVoteOf block height v = true := by
  cases idle with
  | unknown absent =>
    obtain ⟨before, after, rfl, -⟩ := last
    exact absurd own (absent v (by simp))
  | forged w last' own' invalid =>
    rw [isLast_unique last last' (own.trans own'.symm), invalid] at valid
    cases valid
  | copied member =>
    exact List.any_eq_true.2 ⟨p, member, by simp [own, valid]⟩
  | repeated w last' own' voted =>
    rw [isLast_unique last last' (own.trans own'.symm)]
    exact voted

/-- A tally that succeeds has counted exactly, against the true power of the set. -/
theorem exact_of_tally {block : Block} {commit : Commit} {validators : List Validator}
    {f : Finality} {t : Tally} (counted : tally block commit validators = .ok (f, t)) :
    Bounded validators ∧ t.totalPower.toInt = powerSum validators ∧
      t = Tally.count validators (isSignedBy block f.blockHeight commit.round) t.totalPower
        commit.precommits ∧
      t.requiredPower = quorumThreshold t.totalPower ∧
      Tally.Exact validators (isSignedBy block f.blockHeight commit.round) commit.precommits t := by
  obtain ⟨-, -, height, -, total, ⟨bounded, whole⟩, rfl, rfl⟩ := tally_eq_ok.1 counted
  obtain ⟨power, required⟩ :=
    Tally.powers_count (isSignedBy block height commit.round) total bounded
    commit.precommits
  dsimp only
  rw [power]
  exact ⟨bounded, whole, rfl, required, Tally.exact_count bounded commit.precommits⟩

/-- The tally succeeds for other precommits and for another order of the set too. -/
theorem tally_of_tally {block : Block} {commit : Commit} {validators validators' : List Validator}
    {f : Finality} {t : Tally} (counted : tally block commit validators = .ok (f, t))
    (precommits : List Precommit) (members : validators'.Perm validators) :
    ∃ f' t', tally block { commit with precommits } validators' = .ok (f', t') ∧
      f'.blockHeight = f.blockHeight ∧ t'.totalPower = t.totalPower := by
  obtain ⟨matching, header, height, fits, total, ⟨bounded, whole⟩, rfl, rfl⟩ :=
    tally_eq_ok.1 counted
  have bounded' := bounded_perm members bounded
  have whole' : total.toInt = powerSum validators' := by rw [whole, powerSum_perm members]
  refine ⟨_, _, tally_eq_ok.2 ⟨matching, header, height, fits, total, ⟨bounded', whole'⟩, rfl, rfl⟩,
    rfl, ?_⟩
  exact (Tally.powers_count _ total bounded' precommits).1.trans
    (Tally.powers_count _ total bounded commit.precommits).1.symm

/-- Precommits in another order, and any number of others among them, at any places. -/
theorem tally_of_more {block : Block} {commit : Commit} {validators : List Validator} {f : Finality}
    {t : Tally} (counted : tally block commit validators = .ok (f, t))
    {precommits extra : List Precommit} (order : precommits.Perm (commit.precommits ++ extra)) :
    ∃ f' t', tally block { commit with precommits } validators = .ok (f', t') ∧
      t.signedPower ≤ t'.signedPower ∧ (t.hasQuorum = true → t'.hasQuorum = true) ∧
      ((∀ p ∈ extra, Idle block commit validators f.blockHeight p) → t.Agrees t') := by
  obtain ⟨f', t', counted', height, power⟩ := tally_of_tally counted precommits (.refl validators)
  obtain ⟨bounded, -, -, required, exact⟩ := exact_of_tally counted
  obtain ⟨-, -, -, required', exact'⟩ := exact_of_tally counted'
  rw [height] at exact'
  have quorum : t'.requiredPower = t.requiredPower := by rw [required', required, power]
  have same : Validator.signatories validators
      (isSignedBy block f.blockHeight commit.round) precommits
      = Validator.signatories validators (isSignedBy block f.blockHeight commit.round)
        (commit.precommits ++ extra) := signatories_perm order
  have more : t.signedPower ≤ t'.signedPower := by
    rw [Int64.le_iff_toInt_le, exact.signedPower, exact'.signedPower, same]
    refine powerSum_le_of_sublist (signatories_append_sublist commit.precommits extra) ?_
    intro v member
    exact bounded.nonneg v ((signatories_sublist _ _ _).subset member)
  refine ⟨f', t', counted', more, Tally.hasQuorum_mono quorum more, fun idle => ?_⟩
  refine Tally.agrees_of_exact exact exact' quorum (.of_eq ?_)
  rw [same]
  exact signatories_append_idle fun p member v last own valid =>
    (idle p member).voted last own valid

/-- A tally that succeeds counts exactly the members that have signed. The members whose signature
is among the precommits, each under the last entry of its address, have the signed power, and their
number is that of the signers; each of the other precommits is in one of the other three counters.
No sum on the way overflows, at whatever precommit the loop stands. The order of the precommits does
not matter, nor that of a set without repeated addresses; precommits that are added never take power
or the quorum away, and idle ones change nothing. -/
theorem tally_counts_signatories {block : Block} {commit : Commit} {validators : List Validator}
    {f : Finality} {t : Tally} (counted : tally block commit validators = .ok (f, t)) :
    let isValid := isSignedBy block f.blockHeight commit.round
    let signers := commit.signatories block validators f.blockHeight
    (signers.Pairwise fun v w => v.address ≠ w.address) ∧
    (∀ v, v ∈ signers ↔ IsLast validators v ∧ ∃ p ∈ commit.precommits, p.address = v.address ∧
      Ed25519.verify v.publicKey (vote block f.blockHeight commit.round p).signBytes p.signature
        = true) ∧
    t.signedPower.toInt = powerSum signers ∧
    t.signers = signers.length ∧
    t.skippedUnknown = commit.precommits.countP (Tally.isUnknown validators) ∧
    t.signers + t.skippedUnknown + t.skippedDuplicate + t.invalid = commit.precommits.length ∧
    t.totalPower.toInt = powerSum validators ∧ t.signedPower ≤ t.totalPower ∧
    (∀ part, part <+: validators → ∃ sum, totalPower? part = some sum ∧ sum.toInt = powerSum part) ∧
    (∀ done, done <+: commit.precommits → Tally.Exact validators isValid done
      (Tally.count validators isValid t.totalPower done)) ∧
    (∀ precommits, precommits.Perm commit.precommits → ∃ f' t',
      tally block { commit with precommits } validators = .ok (f', t') ∧ t.Agrees t' ∧
        t'.skippedUnknown = t.skippedUnknown) ∧
    (∀ validators', validators'.Perm validators → (validators.map (·.address)).Nodup → ∃ f' t',
      tally block commit validators' = .ok (f', t') ∧ t.Agrees t' ∧
        t'.skippedUnknown = t.skippedUnknown) ∧
    (∀ precommits extra, precommits.Perm (commit.precommits ++ extra) → ∃ f' t',
      tally block { commit with precommits } validators = .ok (f', t') ∧
        t.signedPower ≤ t'.signedPower ∧ (t.hasQuorum = true → t'.hasQuorum = true) ∧
        ((∀ p ∈ extra, Idle block commit validators f.blockHeight p) → t.Agrees t')) := by
  intro isValid signers
  obtain ⟨bounded, whole, counting, required, exact⟩ := exact_of_tally counted
  have below := powerSum_le_of_sublist
    (signatories_sublist validators isValid commit.precommits) bounded.nonneg
  refine ⟨signatories_distinct _, fun v => mem_signatories, exact.signedPower, exact.signers,
    exact.skippedUnknown, exact.each, whole, ?_, ?_, ?_, ?_, ?_, ?_⟩
  · rw [Int64.le_iff_toInt_le, exact.signedPower, whole]
    exact below
  · exact fun part first => totalPower?_of_prefix bounded first
  · intro done _
    exact Tally.exact_count bounded done
  · intro precommits order
    have order' : precommits.Perm (commit.precommits ++ []) := by rwa [List.append_nil]
    obtain ⟨f', t', counted', -, -, idle⟩ := tally_of_more counted order'
    obtain ⟨-, -, -, -, exact'⟩ := exact_of_tally counted'
    refine ⟨f', t', counted', idle (by simp), ?_⟩
    rw [exact'.skippedUnknown, exact.skippedUnknown]
    exact order.countP_eq _
  · intro validators' order distinct
    obtain ⟨f', t', counted', height, power⟩ := tally_of_tally counted commit.precommits order
    obtain ⟨-, -, -, required', exact'⟩ := exact_of_tally counted'
    rw [height] at exact'
    have quorum : t'.requiredPower = t.requiredPower := by rw [required', required, power]
    refine ⟨f', t', counted', Tally.agrees_of_exact exact exact' quorum ?_, ?_⟩
    · exact signatories_perm_members commit.precommits order distinct
    · rw [exact'.skippedUnknown, exact.skippedUnknown]
      refine List.countP_congr fun p _ => ?_
      rw [Tally.isUnknown, Tally.isUnknown, order.any_eq]
  · intro precommits extra order
    exact tally_of_more counted order

namespace Sample
open Session.Sample

/-- The vote of the heir among one of a stranger, a forged one, a second one of the heir and a
copy. -/
def crowd : List Precommit :=
  [⟨[7], signature, 0⟩, ⟨heir.address, signature, 5⟩, ⟨validator.address, [], 0⟩,
    ⟨heir.address, signature, 0⟩, ⟨heir.address, signature, 0⟩]

end Sample

open Session.Sample Sample in
/-- In the crowd the heir counts as it does alone. -/
theorem tally_counts_heir_in_crowd : ∃ f t f' t',
    tally block forBlock [validator, heir] = .ok (f, t) ∧
    t.signedPower.toInt = powerSum (forBlock.signatories block [validator, heir] f.blockHeight) ∧
    tally block { forBlock with precommits := crowd } [validator, heir] = .ok (f', t') ∧
    t.Agrees t' := by
  have succeeds : (tally block forBlock [validator, heir]).toOption.any
      (fun result => result.1.blockHeight == 1) = true := by decide +kernel
  have invalid : isSignedBy block 1 0 validator ⟨validator.address, [], 0⟩ = false := by
    decide +kernel
  have voted : forBlock.hasVoteOf block 1 heir = true := by decide +kernel
  obtain ⟨⟨f, t⟩, counted, height⟩ := exists_of_any succeeds
  have height : f.blockHeight = 1 := by simpa using height
  obtain ⟨-, -, power, -, -, -, -, -, -, -, -, -, more⟩ := tally_counts_signatories counted
  have order : crowd.Perm (forBlock.precommits ++
      [⟨[7], signature, 0⟩, ⟨heir.address, signature, 5⟩, ⟨validator.address, [], 0⟩,
        ⟨heir.address, signature, 0⟩]) := by decide
  obtain ⟨f', t', counted', -, -, agrees⟩ := more crowd _ order
  refine ⟨f, t, f', t', counted, power, counted', agrees fun p member => ?_⟩
  rw [height]
  have last : IsLast [validator, heir] heir := ⟨[validator], [], rfl, by simp⟩
  have first : IsLast [validator, heir] validator := ⟨[], [heir], rfl, by decide⟩
  simp only [List.mem_cons, List.not_mem_nil, or_false] at member
  rcases member with rfl | rfl | rfl | rfl
  · exact .unknown (by decide)
  · exact .repeated heir last rfl voted
  · exact .forged validator first rfl invalid
  · exact .copied (List.mem_singleton.2 rfl)

end Commit

end LightClient
