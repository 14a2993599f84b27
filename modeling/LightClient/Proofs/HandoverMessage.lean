import LightClient.Genesis
import LightClient.Proofs.Collision

/-!
# What the message of a handover tells

Numbers have a fixed width, and byte strings and sets stand after their sizes. As long as four bytes
hold these sizes, a set is read off the front of what it starts, so the bytes of a handover
determine its two heights and its two sets.
-/
namespace LightClient

namespace Bytes

theorem ofBigEndian_append (bytes : Bytes) (b : UInt8) :
    ofBigEndian (bytes ++ [b]) = 256 * ofBigEndian bytes + b.toNat := by
  simp [ofBigEndian]

@[simp] theorem ofBigEndian_bigEndian (width n : Nat) :
    ofBigEndian (bigEndian width n) = n % Nat.pow 256 width := by
  induction width generalizing n with
  | zero => simp [bigEndian, ofBigEndian, Nat.mod_one]
  | succ width ih =>
    rw [bigEndian, ofBigEndian_append, ih, UInt8.toNat_ofNat']
    change _ = n % (Nat.pow 256 width * 256)
    rw [Nat.mul_comm (Nat.pow 256 width), Nat.mod_mul]
    omega

/-- A number that its width holds is determined, and so is what follows it. -/
theorem bigEndian_append_injective {width m n : Nat} {rest rest' : Bytes}
    (same : bigEndian width m ++ rest = bigEndian width n ++ rest') (hm : m < Nat.pow 256 width)
    (hn : n < Nat.pow 256 width) : m = n ∧ rest = rest' := by
  obtain ⟨digits, later⟩ := List.append_inj same (by simp)
  have value := congrArg ofBigEndian digits
  rw [ofBigEndian_bigEndian, ofBigEndian_bigEndian, Nat.mod_eq_of_lt hm,
    Nat.mod_eq_of_lt hn] at value
  exact ⟨value, later⟩

/-- A number of 64 bits is determined by its eight bytes. -/
theorem bigEndian_int64_injective {a b : Int64} {rest rest' : Bytes}
    (same : bigEndian 8 a.toUInt64.toNat ++ rest = bigEndian 8 b.toUInt64.toNat ++ rest') :
    a = b ∧ rest = rest' := by
  obtain ⟨value, later⟩ := bigEndian_append_injective same a.toUInt64.toNat_lt b.toUInt64.toNat_lt
  have bits := congrArg UInt64.toInt64 (UInt64.toNat_inj.1 value)
  rw [Int64.toInt64_toUInt64, Int64.toInt64_toUInt64] at bits
  exact ⟨bits, later⟩

end Bytes

namespace Validator

/-- Four bytes hold the lengths of the address and of the key. -/
structure Encodable (v : Validator) : Prop where
  address : v.address.length < 4294967296
  publicKey : v.publicKey.length < 4294967296

/-- Four bytes hold the size of the set and all lengths in it. -/
structure EncodableSet (validators : List Validator) : Prop where
  size : validators.length < 4294967296
  members : ∀ v ∈ validators, v.Encodable

theorem encodeBlob_append_injective {a b rest rest' : Bytes}
    (same : encodeBlob a ++ rest = encodeBlob b ++ rest') (ha : a.length < 4294967296)
    (hb : b.length < 4294967296) : a = b ∧ rest = rest' := by
  simp only [encodeBlob, List.append_assoc] at same
  obtain ⟨length, later⟩ := Bytes.bigEndian_append_injective same ha hb
  exact List.append_inj later length

theorem encodeBytes_append_injective {v w : Validator} {rest rest' : Bytes}
    (same : v.encodeBytes ++ rest = w.encodeBytes ++ rest') (hv : v.Encodable) (hw : w.Encodable) :
    v = w ∧ rest = rest' := by
  simp only [encodeBytes, List.append_assoc] at same
  obtain ⟨address, same⟩ := encodeBlob_append_injective same hv.address hw.address
  obtain ⟨publicKey, same⟩ := encodeBlob_append_injective same hv.publicKey hw.publicKey
  obtain ⟨power, same⟩ := Bytes.bigEndian_int64_injective same
  cases v
  cases w
  simp_all

/-- Of two sets of one size the members are read off one after the other. -/
theorem flatMap_append_injective {set set' : List Validator} {rest rest' : Bytes}
    (same : set.flatMap encodeBytes ++ rest = set'.flatMap encodeBytes ++ rest')
    (length : set.length = set'.length) (members : ∀ v ∈ set, v.Encodable)
    (members' : ∀ v ∈ set', v.Encodable) : set = set' ∧ rest = rest' := by
  induction set generalizing set' with
  | nil =>
    obtain rfl := List.length_eq_zero_iff.1 length.symm
    exact ⟨rfl, same⟩
  | cons v others ih =>
    cases set' with
    | nil => cases length
    | cons w others' =>
      simp only [List.flatMap_cons, List.append_assoc] at same
      obtain ⟨head, same⟩ := encodeBytes_append_injective same (members v (by simp))
        (members' w (by simp))
      obtain ⟨tail, same⟩ := ih same (by simpa using length) (fun u hu => members u (by simp [hu]))
        (fun u hu => members' u (by simp [hu]))
      exact ⟨by rw [head, tail], same⟩

/-- A set is read off the front of what it starts. -/
theorem encodeSet_append_injective {set set' : List Validator} {rest rest' : Bytes}
    (same : encodeSet set ++ rest = encodeSet set' ++ rest') (encodable : EncodableSet set)
    (encodable' : EncodableSet set') : set = set' ∧ rest = rest' := by
  simp only [encodeSet, List.append_assoc] at same
  obtain ⟨length, same⟩ := Bytes.bigEndian_append_injective same encodable.size encodable'.size
  exact flatMap_append_injective same length encodable.members encodable'.members

end Validator

namespace Handover

/-- Four bytes hold the sizes and lengths of the two sets. -/
structure Encodable (h : Handover) : Prop where
  oldSet : Validator.EncodableSet h.oldSet
  newSet : Validator.EncodableSet h.newSet

/-- The bytes of a handover determine its heights and its sets. -/
theorem encodeBytes_injective {h h' : Handover} (encodable : h.Encodable)
    (encodable' : h'.Encodable) (same : h.encodeBytes = h'.encodeBytes) :
    h.fromHeight = h'.fromHeight ∧ h.toHeight = h'.toHeight ∧ h.oldSet = h'.oldSet ∧
      h.newSet = h'.newSet := by
  rw [← List.append_nil h.encodeBytes, ← List.append_nil h'.encodeBytes] at same
  simp only [encodeBytes, List.append_assoc] at same
  obtain ⟨fromHeight, same⟩ := Bytes.bigEndian_int64_injective same
  obtain ⟨toHeight, same⟩ := Bytes.bigEndian_int64_injective same
  obtain ⟨oldSet, same⟩ :=
    Validator.encodeSet_append_injective same encodable.oldSet encodable'.oldSet
  obtain ⟨newSet, -⟩ := Validator.encodeSet_append_injective same encodable.newSet encodable'.newSet
  exact ⟨fromHeight, toHeight, oldSet, newSet⟩

/-- Two handovers lead from one set at one height to one set at one height, whoever has signed or
approved them. -/
structure SameStep (h h' : Handover) : Prop where
  fromHeight : h.fromHeight = h'.fromHeight
  toHeight : h.toHeight = h'.toHeight
  oldSet : h.oldSet = h'.oldSet
  newSet : h.newSet = h'.newSet

theorem SameStep.encodeBytes_eq {h h' : Handover} (same : h.SameStep h') :
    h.encodeBytes = h'.encodeBytes := by
  rw [encodeBytes, encodeBytes, same.fromHeight, same.toHeight, same.oldSet, same.newSet]

theorem encodeBytes_eq_iff {h h' : Handover} (encodable : h.Encodable) (encodable' : h'.Encodable) :
    h.encodeBytes = h'.encodeBytes ↔ h.SameStep h' := by
  refine ⟨fun same => ?_, SameStep.encodeBytes_eq⟩
  obtain ⟨fromHeight, toHeight, oldSet, newSet⟩ := encodeBytes_injective encodable encodable' same
  exact ⟨fromHeight, toHeight, oldSet, newSet⟩

/-- What members sign binds the step and nothing else: the bytes of two handovers are equal exactly
if they take one step, so with different steps the same digest is a collision. This rests on the
bytes of the sets: each set is determined by whatever starts with its bytes, and so is what follows
them. -/
theorem message_binds_step {h h' : Handover} (encodable : h.Encodable) (encodable' : h'.Encodable) :
    (h.encodeBytes = h'.encodeBytes ↔ h.SameStep h') ∧
      (∀ signatures approvals, { h with signatures, approvals }.encodeBytes = h.encodeBytes) ∧
      (∀ algorithm, h.message algorithm = h'.message algorithm →
        h.SameStep h' ∨ algorithm.Confuses h.encodeBytes h'.encodeBytes) ∧
      ∀ set set' rest rest', Validator.EncodableSet set → Validator.EncodableSet set' →
        (Validator.encodeSet set ++ rest = Validator.encodeSet set' ++ rest' ↔
          set = set' ∧ rest = rest') := by
  refine ⟨encodeBytes_eq_iff encodable encodable', fun signatures approvals => ?_,
    fun algorithm same => ?_, fun set set' rest rest' fits fits' => ⟨fun same => ?_, ?_⟩⟩
  · exact SameStep.encodeBytes_eq ⟨rfl, rfl, rfl, rfl⟩
  · by_cases bytes : h.encodeBytes = h'.encodeBytes
    · exact .inl ((encodeBytes_eq_iff encodable encodable').1 bytes)
    · exact .inr ⟨bytes, same⟩
  · exact Validator.encodeSet_append_injective same fits fits'
  · rintro ⟨rfl, rfl⟩
    rfl

namespace Sample

/-- A handover within a set of which the member has the given address and key. -/
def within (address publicKey : Bytes) : Handover :=
  ⟨0, 2, [⟨address, publicKey, 1⟩], [⟨address, publicKey, 1⟩], [[]], 0⟩

theorem within_encodable {address publicKey : Bytes} (short : address.length < 4294967296)
    (short' : publicKey.length < 4294967296) : (within address publicKey).Encodable := by
  have member : Validator.EncodableSet [⟨address, publicKey, 1⟩] :=
    ⟨by simp, fun v only => List.mem_singleton.1 only ▸ ⟨short, short'⟩⟩
  exact ⟨member, member⟩

end Sample

/-- A byte that moves from the key to the address changes what is signed. -/
theorem moved_byte_changes_message :
    (Sample.within [1] [2, 3]).Encodable ∧ (Sample.within [1, 2] [3]).Encodable ∧
      (Sample.within [1] [2, 3]).encodeBytes ≠ (Sample.within [1, 2] [3]).encodeBytes := by
  have encodable : (Sample.within [1] [2, 3]).Encodable :=
    Sample.within_encodable (by decide) (by decide)
  have encodable' : (Sample.within [1, 2] [3]).Encodable :=
    Sample.within_encodable (by decide) (by decide)
  obtain ⟨binds, -⟩ := message_binds_step encodable encodable'
  refine ⟨encodable, encodable', fun same => ?_⟩
  have sets := (binds.1 same).oldSet
  revert sets
  decide

end Handover

end LightClient
