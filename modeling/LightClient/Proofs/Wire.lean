import LightClient.Vote

/-!
# Reading the wire format

For each way to write something there is a reader here that takes it from the front of a byte string
and leaves what follows. A field that may be left out is told by its tag, so it can be read back if
what follows does not start with the same tag.
-/
namespace LightClient

namespace Bytes

@[simp] theorem ofLittleEndian_littleEndian (width n : Nat) :
    ofLittleEndian (littleEndian width n) = n % Nat.pow 256 width := by
  induction width generalizing n with
  | zero => simp [littleEndian, ofLittleEndian, Nat.mod_one]
  | succ width ih =>
    rw [littleEndian, ofLittleEndian, ih, UInt8.toNat_ofNat']
    exact Nat.mod_mul.symm.trans (congrArg (n % ·) (Nat.mul_comm _ _))

end Bytes

namespace Wire
variable {α : Type}

/-- Reads groups of seven bits, after the first of which at most `more` others follow. -/
def readGroups? : Nat → Bytes → Option (Nat × Bytes)
  | _, [] => none
  | 0, b :: rest => some (b.toNat, rest)
  | more + 1, b :: rest =>
    if b.toNat < 128 then some (b.toNat, rest)
    else (readGroups? more rest).map fun (n, rest) => (b.toNat % 128 + 128 * n, rest)

/-- Reads a number of 64 bits. -/
def readVarint? (bytes : Bytes) : Option (UInt64 × Bytes) :=
  (readGroups? 9 bytes).map fun (n, rest) => (UInt64.ofNat n, rest)

/-- Reads a byte string after its length. -/
def readBlob? (bytes : Bytes) : Option (Bytes × Bytes) :=
  (readVarint? bytes).bind fun (length, rest) =>
    if length.toNat ≤ rest.length then some (rest.take length.toNat, rest.drop length.toNat)
      else none

/-- Reads a number of eight bytes. -/
def readFixed? (bytes : Bytes) : Option (Int64 × Bytes) :=
  if 8 ≤ bytes.length then
    some ((UInt64.ofNat (Bytes.ofLittleEndian (bytes.take 8))).toInt64, bytes.drop 8)
  else none

/-- Reads what follows a tag. -/
def readField? (tag : UInt8) (read : Bytes → Option (α × Bytes)) : Bytes → Option (α × Bytes)
  | [] => none
  | first :: rest => if first = tag then read rest else none

/-- Reads what follows a tag, or the given value if the tag is not there. -/
def readOptional? (tag : UInt8) (absent : α) (read : Bytes → Option (α × Bytes)) (bytes : Bytes) :
    Option (α × Bytes) :=
  if bytes.head? = some tag then readField? tag read bytes else some (absent, bytes)

theorem readGroups?_groups (more n : Nat) (rest : Bytes) (fits : n < Nat.pow 128 more * 256) :
    readGroups? more (groups more n ++ rest) = some (n, rest) := by
  induction more generalizing n with
  | zero =>
    have small : n < 256 := by simpa using fits
    have byte : (UInt8.ofNat n).toNat = n := UInt8.toNat_ofNat_of_lt small
    rw [groups, List.singleton_append, readGroups?, byte]
  | succ more ih =>
    rw [groups]
    by_cases last : n < 128
    · have byte : (UInt8.ofNat n).toNat = n :=
        UInt8.toNat_ofNat_of_lt (by change n < 256; omega)
      rw [if_pos last, List.singleton_append, readGroups?, byte, if_pos last]
    · have byte : (UInt8.ofNat (n % 128 + 128)).toNat = n % 128 + 128 :=
        UInt8.toNat_ofNat_of_lt (by change n % 128 + 128 < 256; omega)
      have shorter : n / 128 < Nat.pow 128 more * 256 := by
        apply Nat.div_lt_of_lt_mul
        calc
          n < Nat.pow 128 more * 128 * 256 := fits
          _ = 128 * (Nat.pow 128 more * 256) := by
            rw [Nat.mul_comm (Nat.pow 128 more), Nat.mul_assoc]
      have whole : (n % 128 + 128) % 128 + 128 * (n / 128) = n := by omega
      rw [if_neg last, List.cons_append, readGroups?, byte, if_neg (by omega), ih _ shorter]
      exact congrArg some (Prod.ext whole rfl)

theorem readVarint?_varint (n : UInt64) (rest : Bytes) :
    readVarint? (varint n ++ rest) = some (n, rest) := by
  have bound := n.toNat_lt
  have fits : n.toNat < Nat.pow 128 9 * 256 := by
    change n.toNat < 2361183241434822606848
    omega
  rw [readVarint?, varint, readGroups?_groups 9 n.toNat rest fits, Option.map_some]
  simp only [UInt64.ofNat_toNat]

theorem readBlob?_blob (payload rest : Bytes) (fits : payload.length < UInt64.size) :
    readBlob? (varint (UInt64.ofNat payload.length) ++ payload ++ rest) = some (payload, rest) := by
  have length : (UInt64.ofNat payload.length).toNat = payload.length :=
    UInt64.toNat_ofNat_of_lt fits
  rw [List.append_assoc, readBlob?, readVarint?_varint, Option.bind_some]
  simp [length]

theorem readFixed?_littleEndian (n : Int64) (rest : Bytes) :
    readFixed? (Bytes.littleEndian 8 n.toUInt64.toNat ++ rest) = some (n, rest) := by
  have front : (Bytes.littleEndian 8 n.toUInt64.toNat ++ rest).take 8
      = Bytes.littleEndian 8 n.toUInt64.toNat := List.take_left' (Bytes.length_littleEndian _ _)
  have back : (Bytes.littleEndian 8 n.toUInt64.toNat ++ rest).drop 8 = rest :=
    List.drop_left' (Bytes.length_littleEndian _ _)
  have small : n.toUInt64.toNat % Nat.pow 256 8 = n.toUInt64.toNat :=
    Nat.mod_eq_of_lt n.toUInt64.toNat_lt
  rw [readFixed?, if_pos (by simp), front, back, Bytes.ofLittleEndian_littleEndian, small,
    UInt64.ofNat_toNat, Int64.toInt64_toUInt64]

@[simp] theorem readField?_cons (tag : UInt8) (read : Bytes → Option (α × Bytes)) (rest : Bytes) :
    readField? tag read (tag :: rest) = read rest := by
  simp [readField?]

/-- Where a value is left out if it is the default, the tag tells whether it is, unless what follows
starts with the same tag. -/
theorem readOptional?_append {left : Prop} [Decidable left] {tag : UInt8} {absent value : α}
    {read : Bytes → Option (α × Bytes)} {encoded rest : Bytes} (default : left → value = absent)
    (reads : read (encoded ++ rest) = some (value, rest)) (other : rest.head? ≠ some tag) :
    readOptional? tag absent read ((if left then [] else tag :: encoded) ++ rest)
      = some (value, rest) := by
  by_cases h : left
  · rw [if_pos h, List.nil_append, readOptional?, if_neg other, default h]
  · rw [if_neg h, List.cons_append, readOptional?, List.head?_cons, if_pos rfl,
      readField?_cons, reads]

/-- What may be left out does not hide what starts with another tag than its own. -/
theorem head?_append_ne {left : Prop} [Decidable left] {tag other : UInt8} {encoded rest : Bytes}
    (distinct : tag ≠ other) (later : rest.head? ≠ some other) :
    ((if left then [] else tag :: encoded) ++ rest).head? ≠ some other := by
  by_cases h : left
  · rwa [if_pos h]
  · rw [if_neg h, List.cons_append, List.head?_cons]
    exact fun same => distinct (Option.some.inj same)

theorem readField?_field (tag : UInt8) (payload rest : Bytes)
    (fits : payload.length < UInt64.size) :
    readField? tag readBlob? (field tag payload ++ rest) = some (payload, rest) := by
  rw [field, List.cons_append, List.cons_append, readField?_cons, readBlob?_blob payload rest fits]

theorem length_groups_le (more n : Nat) : (groups more n).length ≤ more + 1 := by
  induction more generalizing n with
  | zero => simp [groups]
  | succ more ih =>
    rw [groups]
    split
    · simp
    · simpa using ih (n / 128)

theorem le_length_field (tag : UInt8) (payload : Bytes) :
    payload.length ≤ (field tag payload).length := by
  simp only [field, List.length_append, List.length_cons]
  omega

theorem length_field_le (tag : UInt8) (payload : Bytes) :
    (field tag payload).length ≤ payload.length + 11 := by
  have short := length_groups_le 9 (UInt64.ofNat payload.length).toNat
  simp only [field, varint, List.length_append, List.length_cons]
  omega

end Wire

namespace Vote
open Wire

theorem readOptional?_numberField (tag : UInt8) (n : UInt64) (rest : Bytes)
    (other : rest.head? ≠ some tag) :
    readOptional? tag 0 readVarint? (numberField tag n ++ rest) = some (n, rest) :=
  readOptional?_append id (readVarint?_varint n rest) other

theorem readOptional?_fixedField (tag : UInt8) (n : Int64) (rest : Bytes)
    (other : rest.head? ≠ some tag) :
    readOptional? tag 0 readFixed? (fixedField tag n ++ rest) = some (n, rest) :=
  readOptional?_append id (readFixed?_littleEndian n rest) other

theorem readOptional?_bytesField (tag : UInt8) (bytes rest : Bytes)
    (other : rest.head? ≠ some tag) (fits : bytes.length < UInt64.size) :
    readOptional? tag [] readBlob? (bytesField tag bytes ++ rest) = some (bytes, rest) :=
  readOptional?_append id (readBlob?_blob bytes rest fits) other

theorem head?_numberField_ne {tag other : UInt8} (n : UInt64) (rest : Bytes)
    (distinct : tag ≠ other)
    (later : rest.head? ≠ some other) : (numberField tag n ++ rest).head? ≠ some other :=
  head?_append_ne distinct later

theorem head?_fixedField_ne {tag other : UInt8} (n : Int64) (rest : Bytes) (distinct : tag ≠ other)
    (later : rest.head? ≠ some other) : (fixedField tag n ++ rest).head? ≠ some other :=
  head?_append_ne distinct later

theorem head?_bytesField_ne {tag other : UInt8} (bytes : Bytes) (rest : Bytes)
    (distinct : tag ≠ other)
    (later : rest.head? ≠ some other) : (bytesField tag bytes ++ rest).head? ≠ some other :=
  head?_append_ne distinct later

theorem length_numberField_le (tag : UInt8) (n : UInt64) : (numberField tag n).length ≤ 11 := by
  have short := length_groups_le 9 n.toNat
  unfold numberField varint
  split
  · exact Nat.zero_le 11
  · exact Nat.succ_le_succ short

theorem length_fixedField_le (tag : UInt8) (n : Int64) : (fixedField tag n).length ≤ 9 := by
  unfold fixedField
  split <;> simp

theorem le_length_bytesField (tag : UInt8) (bytes : Bytes) :
    bytes.length ≤ (bytesField tag bytes).length := by
  unfold bytesField
  split
  · rename_i empty
    simp [empty]
  · exact le_length_field tag bytes

theorem length_bytesField_le (tag : UInt8) (bytes : Bytes) :
    (bytesField tag bytes).length ≤ bytes.length + 11 := by
  have short := length_field_le tag bytes
  unfold bytesField
  split
  · simp
  · exact short

end Vote

end LightClient
