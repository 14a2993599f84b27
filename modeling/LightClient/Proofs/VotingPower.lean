import LightClient.Validator

/-!
# Voting power without overflow

Powers are 64-bit numbers, but every sum that is formed is the true one: the power of a whole set is
checked to fit, and the power of some of its members is not larger. A quorum is then exactly more
than two thirds in unbounded integers.
-/
namespace LightClient

namespace Validator

/-- The power of all members together, as an unbounded number. -/
def powerSum : List Validator → Int
  | [] => 0
  | v :: rest => v.power.toInt + powerSum rest

@[simp] theorem powerSum_nil : powerSum [] = 0 := rfl

@[simp] theorem powerSum_cons (v : Validator) (rest : List Validator) :
    powerSum (v :: rest) = v.power.toInt + powerSum rest := rfl

/-- No member has negative power, and the power of all together fits 64 bits. -/
structure Bounded (validators : List Validator) : Prop where
  nonneg : ∀ v ∈ validators, 0 ≤ v.power.toInt
  fits : powerSum validators ≤ Int64.maxValue.toInt

theorem powerSum_nonneg {validators : List Validator} (h : ∀ v ∈ validators, 0 ≤ v.power.toInt) :
    0 ≤ powerSum validators := by
  induction validators with
  | nil => simp
  | cons v rest ih =>
    have head := h v (by simp)
    have tail := ih fun w hw => h w (by simp [hw])
    simp only [powerSum_cons]
    omega

/-- Some of the members have no more power than all. -/
theorem powerSum_le_of_sublist {some all : List Validator} (h : some.Sublist all)
    (nonneg : ∀ v ∈ all, 0 ≤ v.power.toInt) : powerSum some ≤ powerSum all := by
  induction h with
  | slnil => simp
  | cons v _ ih =>
    have head := nonneg v (by simp)
    have tail := ih fun w hw => nonneg w (by simp [hw])
    simp only [powerSum_cons]
    omega
  | cons_cons v _ ih =>
    have tail := ih fun w hw => nonneg w (by simp [hw])
    simp only [powerSum_cons]
    omega

theorem toInt_add_of_le {a b : Int64} (ha : 0 ≤ a.toInt) (hb : 0 ≤ b.toInt)
    (fits : a.toInt + b.toInt ≤ Int64.maxValue.toInt) : (a + b).toInt = a.toInt + b.toInt := by
  have bound : Int64.maxValue.toInt = 9223372036854775807 := by decide
  rw [Int64.toInt_add]
  exact Int.bmod_eq_of_le (by omega) (by omega)

theorem addPower?_eq_some {a b sum : Int64} (ha : 0 ≤ a.toInt) (hb : 0 ≤ b.toInt) :
    addPower? a b = some sum ↔
      a.toInt + b.toInt ≤ Int64.maxValue.toInt ∧ sum.toInt = a.toInt + b.toInt := by
  have least : Int64.minValue.toInt = -9223372036854775808 := by decide
  have most : Int64.maxValue.toInt = 9223372036854775807 := by decide
  unfold addPower?
  dsimp only
  constructor
  · intro h
    split at h
    · rename_i range
      obtain rfl := Option.some.inj h
      exact ⟨range.2, Int64.toInt_ofInt_of_le (by omega) (by omega)⟩
    · cases h
  · intro h
    obtain ⟨fits, equal⟩ := h
    rw [if_pos ⟨by omega, fits⟩, ← equal, Int64.ofInt_toInt]

/-- One more member is added exactly if its power is not negative and the sum fits. -/
theorem addMember_eq_some {start sum : Int64} {v : Validator} (h : 0 ≤ start.toInt) :
    (if v.power < 0 then none else addPower? start v.power) = some sum ↔
      0 ≤ v.power.toInt ∧ start.toInt + v.power.toInt ≤ Int64.maxValue.toInt ∧
        sum.toInt = start.toInt + v.power.toInt := by
  have zero : (0 : Int64).toInt = 0 := by decide
  have sign : v.power < 0 ↔ v.power.toInt < 0 := by rw [Int64.lt_iff_toInt_lt, zero]
  by_cases negative : v.power < 0
  · have below := sign.1 negative
    rw [if_pos negative]
    constructor
    · intro h
      cases h
    · intro h
      have := h.1
      omega
  · have head : 0 ≤ v.power.toInt := Int.not_lt.1 (mt sign.2 negative)
    rw [if_neg negative, addPower?_eq_some h head]
    exact ⟨fun h => ⟨head, h⟩, fun h => h.2⟩

theorem foldlM_power {validators : List Validator} {start total : Int64} (low : 0 ≤ start.toInt) :
    validators.foldlM (fun sum v => if v.power < 0 then none else addPower? sum v.power) start
        = some total ↔
      (∀ v ∈ validators, 0 ≤ v.power.toInt) ∧
        start.toInt + powerSum validators ≤ Int64.maxValue.toInt ∧
        total.toInt = start.toInt + powerSum validators := by
  induction validators generalizing start with
  | nil =>
    have := Int64.toInt_le start
    simp only [List.foldlM_nil, powerSum_nil, Int.add_zero]
    constructor
    · intro same
      obtain rfl := Option.some.inj same
      simpa using this
    · intro h
      obtain ⟨-, -, same⟩ := h
      exact congrArg some (Int64.toInt_inj.1 same.symm)
  | cons v rest ih =>
    simp only [List.foldlM_cons, Option.bind_eq_bind, Option.bind_eq_some_iff,
      addMember_eq_some low, powerSum_cons, List.forall_mem_cons]
    constructor
    · intro h
      obtain ⟨sum, ⟨head, -, equal⟩, later⟩ := h
      obtain ⟨nonneg, fits, whole⟩ := (ih (by omega)).1 later
      rw [equal] at fits whole
      exact ⟨⟨head, nonneg⟩, by omega, by omega⟩
    · intro h
      obtain ⟨⟨head, nonneg⟩, fits, whole⟩ := h
      have tail := powerSum_nonneg nonneg
      have equal : (start + v.power).toInt = start.toInt + v.power.toInt :=
        toInt_add_of_le low head (by omega)
      refine ⟨start + v.power, ⟨head, by omega, equal⟩, (ih (by omega)).2 ⟨nonneg, ?_, ?_⟩⟩ <;>
        rw [equal] <;> omega

/-- A set has a power if and only if the powers are not negative and their sum fits; it is the
sum. -/
theorem totalPower?_eq_some {validators : List Validator} {total : Int64} :
    totalPower? validators = some total ↔
      Bounded validators ∧ total.toInt = powerSum validators := by
  have zero : (0 : Int64).toInt = 0 := by decide
  unfold totalPower?
  rw [foldlM_power (by omega), zero, Int.zero_add]
  constructor
  · intro h
    obtain ⟨nonneg, fits, equal⟩ := h
    exact ⟨⟨nonneg, fits⟩, equal⟩
  · intro h
    obtain ⟨⟨nonneg, fits⟩, equal⟩ := h
    exact ⟨nonneg, fits, equal⟩

theorem totalPower?_isSome {validators : List Validator} :
    (totalPower? validators).isSome ↔ Bounded validators := by
  rw [Option.isSome_iff_exists]
  constructor
  · intro h
    obtain ⟨total, h⟩ := h
    exact (totalPower?_eq_some.1 h).1
  · intro h
    have most : Int64.maxValue.toInt = 9223372036854775807 := by decide
    have low := powerSum_nonneg h.nonneg
    have high := h.fits
    exact ⟨Int64.ofInt (powerSum validators),
      totalPower?_eq_some.2 ⟨h, Int64.toInt_ofInt_of_le (by omega) (by omega)⟩⟩

/-- The threshold is the true quotient and one more. -/
theorem toInt_quorumThreshold (total : Int64) :
    (quorumThreshold total).toInt = max total.toInt 0 * 2 / 3 + 1 := by
  have most : Int64.maxValue.toInt = 9223372036854775807 := by decide
  have bound := Int64.toInt_le total
  exact Int64.toInt_ofInt_of_le (by omega) (by omega)

/-- To reach the threshold is to have more than two thirds. -/
theorem quorumThreshold_le (total signed : Int64) :
    quorumThreshold total ≤ signed ↔ 2 * max total.toInt 0 < 3 * signed.toInt := by
  rw [Int64.le_iff_toInt_le, toInt_quorumThreshold]
  omega

/-- Adding the powers of those that pass a test, one after the other, gives the true sum. -/
theorem toInt_foldl_power {α : Type} (items : List α) (start : Int64) (member : α → Validator)
    (passes : α → Bool) (low : 0 ≤ start.toInt) (nonneg : ∀ a ∈ items, 0 ≤ (member a).power.toInt)
    (fits : start.toInt + powerSum (items.map member) ≤ Int64.maxValue.toInt) :
    (items.foldl (fun sum a => if passes a then sum + (member a).power else sum) start).toInt =
      start.toInt + powerSum ((items.filter passes).map member) := by
  induction items generalizing start with
  | nil => simp
  | cons a rest ih =>
    have head := nonneg a (by simp)
    have tail : ∀ b ∈ rest, 0 ≤ (member b).power.toInt := fun b hb => nonneg b (by simp [hb])
    have room : 0 ≤ powerSum (rest.map member) := powerSum_nonneg (by simpa using tail)
    simp only [List.map_cons, powerSum_cons] at fits
    rw [List.foldl_cons]
    by_cases h : passes a = true
    · have equal := toInt_add_of_le low head (by omega)
      rw [if_pos h, ih _ (by omega) tail (by omega), equal, List.filter_cons_of_pos h,
        List.map_cons, powerSum_cons]
      omega
    · rw [if_neg h, ih _ low tail (by omega), List.filter_cons_of_neg h]

/-- Those that pass two tests have the power that the two tests count more than once. -/
theorem powerSum_overlap {α : Type} (items : List α) (member : α → Validator)
    (first second : α → Bool) (nonneg : ∀ a ∈ items, 0 ≤ (member a).power.toInt) :
    powerSum ((items.filter first).map member) + powerSum ((items.filter second).map member) ≤
      powerSum (items.map member)
        + powerSum ((items.filter fun a => first a && second a).map member) := by
  induction items with
  | nil => simp
  | cons a rest ih =>
    have head := nonneg a (by simp)
    have tail := ih fun b hb => nonneg b (by simp [hb])
    cases inFirst : first a <;> cases inSecond : second a <;> simp [inFirst, inSecond] <;> omega

/-- Two quorums of a set have more than a third of its power in common. -/
theorem third_of_quorums {α : Type} {items : List α} {member : α → Validator}
    {first second : α → Bool} (nonneg : ∀ a ∈ items, 0 ≤ (member a).power.toInt) {total : Int}
    (whole : powerSum (items.map member) ≤ total)
    (quorum : 2 * total < 3 * powerSum ((items.filter first).map member))
    (quorum' : 2 * total < 3 * powerSum ((items.filter second).map member)) :
    total < 3 * powerSum ((items.filter fun a => first a && second a).map member) := by
  have overlap := powerSum_overlap items member first second nonneg
  omega

end Validator

end LightClient
