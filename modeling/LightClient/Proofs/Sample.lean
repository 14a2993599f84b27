import LightClient.Genesis

/-!
# A network small enough to evaluate

The key of its validators is the neutral point of the curve. One signature is then valid for every
message under this key, which makes runs on fixed inputs cheap.
-/
namespace LightClient.Session.Sample

/-- A validator with the neutral point as key, under which every message has a signature. -/
def validator : Validator := ⟨[], 1 :: List.replicate 31 0, 1⟩

def signature : Bytes := 1 :: List.replicate 63 0

/-- The hash of an entry that is the anchor of its block as well. -/
def root : Hash := ⟨List.replicate 32 1, rfl⟩

/-- The hash of the header of `block`. -/
def blockHash : Hash :=
  ⟨[0, 216, 18, 173, 246, 36, 86, 233, 191, 95, 53, 114, 89, 33, 110, 95, 14, 48, 250, 152, 219, 29,
    166, 23, 150, 216, 252, 68, 87, 8, 214, 18], rfl⟩

/-- The first block of the directory. -/
def block : Block :=
  ⟨1, blockHash, root, ⟨14, 10, List.replicate 4 .zero⟩, some Url.directory.text, "", .none⟩

/-- Another block at its height, with another application hash. -/
def rival : Block :=
  { block with
    appHash := .zero
    blockHash :=
      ⟨[61, 243, 105, 137, 84, 38, 184, 103, 131, 105, 16, 75, 236, 66, 68, 19, 25, 78, 68, 134, 32,
        186, 79, 109, 6, 159, 52, 156, 8, 173, 129, 99], rfl⟩ }

/-- A genesis with the validator alone. -/
def origin : Genesis := ⟨.zero, [validator]⟩

/-- A second validator, with more than two thirds of the power of both. -/
def heir : Validator := ⟨[1], 1 :: List.replicate 31 0, 3⟩

/-- The heir joins the first validator. -/
def joins : Handover := ⟨0, 2, [validator], [validator, heir], [signature], 0⟩

/-- The heir alone signs that it takes over. -/
def remains : Handover := ⟨2, 5, [validator, heir], [heir], [[], signature], 0⟩

/-- The same step, reported with one approval. -/
def rejoins : Handover := { joins with approvals := 1 }

/-- The heir signs as well that it gives all power back. -/
def returns : Handover := ⟨2, 6, [validator, heir], [validator], [[], signature], 0⟩

theorem exists_of_any {ε α : Type} {result : Except ε α} {test : α → Bool}
    (h : result.toOption.any test = true) : ∃ a, result = .ok a ∧ test a = true := by
  cases result with
  | error f => cases h
  | ok a => exact ⟨a, rfl, h⟩

end LightClient.Session.Sample
