/-!
# Byte strings

Byte strings are lists of octets. A number of fixed width is written with its most or its least
significant byte first, and a text stands for its UTF-8 bytes.
-/
namespace LightClient

/-- A byte string. -/
abbrev Bytes := List UInt8

namespace Bytes

/-- The low `width` bytes of `n`, most significant first. -/
def bigEndian : Nat → Nat → Bytes
  | 0, _ => []
  | width + 1, n => bigEndian width (n / 256) ++ [UInt8.ofNat n]

/-- The low `width` bytes of `n`, least significant first. -/
def littleEndian : Nat → Nat → Bytes
  | 0, _ => []
  | width + 1, n => UInt8.ofNat n :: littleEndian width (n / 256)

/-- The number whose bytes, most significant first, are `bytes`. -/
def ofBigEndian (bytes : Bytes) : Nat :=
  bytes.foldl (fun n b => 256 * n + b.toNat) 0

/-- The number whose bytes, least significant first, are `bytes`. -/
def ofLittleEndian : Bytes → Nat
  | [] => 0
  | b :: rest => b.toNat + 256 * ofLittleEndian rest

/-- The UTF-8 bytes of a text. -/
def ofText (text : String) : Bytes := text.toUTF8.data.toList

/-- The first `count` pieces of `width` bytes each. -/
def chunks (width : Nat) : Nat → Bytes → List Bytes
  | 0, _ => []
  | count + 1, bytes => bytes.take width :: chunks width count (bytes.drop width)

@[simp] theorem length_bigEndian (width n : Nat) : (bigEndian width n).length = width := by
  induction width generalizing n with
  | zero => rfl
  | succ width ih => simp [bigEndian, ih]

@[simp] theorem length_littleEndian (width n : Nat) : (littleEndian width n).length = width := by
  induction width generalizing n with
  | zero => rfl
  | succ width ih => simp [littleEndian, ih]

/-- A byte below 128 is the only one of its character. -/
theorem utf8EncodeChar_of_mem {c : Char} {b : UInt8} (mem : b ∈ String.utf8EncodeChar c)
    (ascii : b.toNat < 128) : String.utf8EncodeChar c = [b] ∧ c.toNat = b.toNat := by
  change _ ∧ c.val.toNat = b.toNat
  revert mem
  unfold String.utf8EncodeChar
  generalize c.val.toNat = v
  dsimp only
  split
  · rename_i small
    intro mem
    obtain rfl := List.mem_singleton.1 mem
    refine ⟨rfl, ?_⟩
    simp
    omega
  · -- All bytes of a longer form are above 127.
    split
    · intro mem
      simp [← UInt8.toNat_inj] at mem
      omega
    · split <;>
      · intro mem
        simp [← UInt8.toNat_inj] at mem
        omega

end Bytes

end LightClient
