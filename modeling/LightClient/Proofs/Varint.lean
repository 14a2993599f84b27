import LightClient.Proofs.Wire
import Mathlib.Algebra.Group.Nat.Defs

/-!
# Numbers and messages on the wire

A number may be written in groups of seven bits in many ways, as groups without bits can be added at
its end. The way it is written here is the shortest and the only one of its length. Written and read
in words, by shifts and masks, it comes to the same, and as the last group is told by its mark, what
follows a number or a message is never taken for a part of it.
-/
namespace LightClient.Wire

/-- Groups of seven bits, the lowest first, all but the last marked as continued, stand for a
number. -/
inductive Encodes : Bytes → Nat → Prop where
  | last {b : UInt8} (free : b.toNat < 128) : Encodes [b] b.toNat
  | more {b : UInt8} {rest : Bytes} {n : Nat} (marked : 128 ≤ b.toNat) (later : Encodes rest n) :
      Encodes (b :: rest) (b.toNat % 128 + 128 * n)

theorem toNat_shift_seven (word : UInt64) : (word >>> 7).toNat = word.toNat / 128 := by
  rw [UInt64.toNat_shiftRight]
  exact Nat.shiftRight_eq_div_pow _ 7

/-- Appends a number: while it has more than seven bits, its low byte is written with the mark set,
and seven bits are shifted out. -/
def put (out : Bytes) (word : UInt64) : Bytes :=
  if 0x80 ≤ word then put (out ++ [word.toUInt8 ||| 0x80]) (word >>> 7) else out ++ [word.toUInt8]
termination_by word.toNat
decreasing_by
  rename_i big
  have big : 128 ≤ word.toNat := UInt64.le_iff_toNat_le.1 big
  have shifted := toNat_shift_seven word
  omega

/-- Appends a byte string after its tag and its length. -/
def putMessage (out : Bytes) (tag : UInt8) (payload : Bytes) : Bytes :=
  put (out ++ [tag]) (UInt64.ofNat payload.length) ++ payload

/-- Reads a number in words: the low seven bits of each byte are shifted to their place, up to the
first byte without the mark. A byte that would be shifted by the width of a word or more is
refused. -/
def readShifted? (shift : Nat) (word : UInt64) : Bytes → Option (UInt64 × Bytes)
  | [] => none
  | b :: rest =>
    if shift < 64 then
      let word := word ||| (b &&& 0x7f).toUInt64 <<< UInt64.ofNat shift
      if b &&& 0x80 = 0 then some (word, rest) else readShifted? (shift + 7) word rest
    else none

/-- Reads the number at the front of a byte string. -/
def readNumber? (bytes : Bytes) : Option (UInt64 × Bytes) := readShifted? 0 0 bytes

/-- Reads the message at the front of a byte string, with its tag. -/
def readMessage? : Bytes → Option ((UInt8 × Bytes) × Bytes)
  | [] => none
  | tag :: rest => (readNumber? rest).bind fun (length, rest) =>
    if length.toNat ≤ rest.length then some ((tag, rest.take length.toNat), rest.drop length.toNat)
    else none

/-! ## Words and numbers -/

theorem toNat_low_seven (b : UInt8) : (b &&& 0x7f).toNat = b.toNat % 128 := by
  rw [UInt8.toNat_and]
  exact Nat.and_two_pow_sub_one_eq_mod b.toNat 7

theorem mark_eq_zero_iff (b : UInt8) : b &&& 0x80 = 0 ↔ b.toNat < 128 := by
  have each : ∀ n : Fin 256, UInt8.ofNat n &&& 0x80 = 0 ↔ (UInt8.ofNat n).toNat < 128 := by
    decide +kernel
  simpa using each ⟨b.toNat, b.toNat_lt⟩

/-- With the mark set, the low byte of a word is its low group. -/
theorem marked_byte (word : UInt64) :
    word.toUInt8 ||| 0x80 = UInt8.ofNat (word.toNat % 128 + 128) := by
  have each : ∀ n : Fin 256, UInt8.ofNat n ||| 0x80 =
      UInt8.ofNat ((UInt8.ofNat n).toNat % 128 + 128) := by
    decide +kernel
  have whole : word.toUInt8 ||| 0x80 = UInt8.ofNat (word.toUInt8.toNat % 128 + 128) := by
    have own := each ⟨word.toUInt8.toNat, word.toUInt8.toNat_lt⟩
    rwa [UInt8.ofNat_toNat] at own
  have low : word.toUInt8.toNat % 128 = word.toNat % 128 := by
    rw [UInt64.toNat_toUInt8]
    omega
  rw [whole, low]

theorem put_eq (more : Nat) (out : Bytes) (word : UInt64) (fits : word.toNat < 128 ^ (more + 1)) :
    put out word = out ++ groups more word.toNat := by
  induction more generalizing out word with
  | zero =>
    have small : ¬ (0x80 : UInt64) ≤ word := by
      rw [UInt64.le_iff_toNat_le]
      exact Nat.not_le.2 fits
    rw [put, if_neg small, groups]
    rfl
  | succ more ih =>
    rw [put, groups]
    by_cases big : (0x80 : UInt64) ≤ word
    · have large : 128 ≤ word.toNat := UInt64.le_iff_toNat_le.1 big
      have shifted := toNat_shift_seven word
      have shorter : (word >>> 7).toNat < 128 ^ (more + 1) := by
        rw [shifted]
        exact Nat.div_lt_of_lt_mul (by rwa [Nat.pow_succ'] at fits)
      rw [if_pos big, if_neg (Nat.not_lt.2 large), ih _ _ shorter, shifted, marked_byte,
        List.append_assoc, List.singleton_append]
    · have small : word.toNat < 128 := UInt64.lt_iff_toNat_lt.1 (UInt64.not_le.1 big)
      rw [if_neg big, if_pos small]
      rfl

/-- A group that is shifted past the bits of a word is added to it, up to the width of words. -/
theorem or_shifted (word : UInt64) (b : UInt8) {shift : Nat} (inside : shift < 64)
    (room : word.toNat < 2 ^ shift) :
    word ||| (b &&& 0x7f).toUInt64 <<< UInt64.ofNat shift
      = UInt64.ofNat (word.toNat + 2 ^ shift * (b.toNat % 128)) := by
  have amount : (UInt64.ofNat shift).toNat = shift :=
    UInt64.toNat_ofNat_of_lt (Nat.lt_trans inside (by decide))
  have width : 2 ^ 64 = 2 ^ shift * 2 ^ (64 - shift) := by
    rw [← Nat.pow_add]
    congr 1
    omega
  have moved : ((b &&& 0x7f).toUInt64 <<< UInt64.ofNat shift).toNat =
      2 ^ shift * (b.toNat % 128 % 2 ^ (64 - shift)) := by
    rw [UInt64.toNat_shiftLeft, amount, Nat.mod_eq_of_lt inside, UInt8.toNat_toUInt64,
      toNat_low_seven, Nat.shiftLeft_eq, Nat.mul_comm, width, Nat.mul_mod_mul_left]
  have cut : (word.toNat + 2 ^ shift * (b.toNat % 128)) % 2 ^ 64 =
      word.toNat + 2 ^ shift * (b.toNat % 128 % 2 ^ (64 - shift)) := by
    rw [width, Nat.mod_mul, Nat.add_mul_mod_self_left, Nat.mod_eq_of_lt room,
      Nat.add_mul_div_left _ _ (Nat.two_pow_pos shift), Nat.div_eq_of_lt room, Nat.zero_add]
  apply UInt64.toNat_inj.1
  rw [UInt64.toNat_or, moved, UInt64.toNat_ofNat', cut, Nat.or_comm,
    ← Nat.two_pow_add_eq_or_of_lt room, Nat.add_comm]

/-! ## Reading and writing -/

theorem Encodes.length_pos {bytes : Bytes} {n : Nat} (h : Encodes bytes n) : 0 < bytes.length := by
  cases h <;> exact Nat.succ_pos _

theorem Encodes.lt {bytes : Bytes} {n : Nat} (h : Encodes bytes n) : n < 128 ^ bytes.length := by
  induction h with
  | last free => simpa using free
  | @more b rest n _ _ ih =>
    rw [List.length_cons, Nat.pow_succ']
    omega

/-- All bytes but the last carry the mark. -/
theorem Encodes.marks {bytes : Bytes} {n : Nat} (h : Encodes bytes n) :
    ∃ front last, bytes = front ++ [last] ∧ (∀ b ∈ front, b &&& 0x80 ≠ 0) ∧ last &&& 0x80 = 0 := by
  induction h with
  | @last b free =>
    exact ⟨[], b, rfl, fun _ member => absurd member List.not_mem_nil, (mark_eq_zero_iff b).2 free⟩
  | @more b rest n marked _ ih =>
    obtain ⟨front, last, rfl, marks, free⟩ := ih
    refine ⟨b :: front, last, rfl, List.forall_mem_cons.2 ⟨?_, marks⟩, free⟩
    exact mt (mark_eq_zero_iff b).1 (Nat.not_lt.2 marked)

theorem encodes_groups (more n : Nat) (fits : n < 128 ^ (more + 1)) :
    Encodes (groups more n) n := by
  induction more generalizing n with
  | zero =>
    have byte : (UInt8.ofNat n).toNat = n := UInt8.toNat_ofNat_of_lt (by change n < 256; omega)
    have group : Encodes [UInt8.ofNat n] (UInt8.ofNat n).toNat := .last (by omega)
    rwa [byte] at group
  | succ more ih =>
    rw [groups]
    by_cases last : n < 128
    · have byte : (UInt8.ofNat n).toNat = n := UInt8.toNat_ofNat_of_lt (by change n < 256; omega)
      have group : Encodes [UInt8.ofNat n] (UInt8.ofNat n).toNat := .last (by omega)
      rw [if_pos last]
      rwa [byte] at group
    · have byte : (UInt8.ofNat (n % 128 + 128)).toNat = n % 128 + 128 :=
        UInt8.toNat_ofNat_of_lt (by change n % 128 + 128 < 256; omega)
      have shorter : n / 128 < 128 ^ (more + 1) :=
        Nat.div_lt_of_lt_mul (by rwa [Nat.pow_succ'] at fits)
      have group : Encodes _ ((UInt8.ofNat (n % 128 + 128)).toNat % 128 + 128 * (n / 128)) :=
        .more (by omega) (ih _ shorter)
      rw [byte] at group
      rw [if_neg last]
      have whole : (n % 128 + 128) % 128 + 128 * (n / 128) = n := by omega
      rwa [whole] at group

/-- No way to write a number is shorter, and none is different and as short. -/
theorem groups_shortest {bytes : Bytes} {n : Nat} (h : Encodes bytes n) (more : Nat) :
    (groups more n).length ≤ bytes.length ∧
      (n < 128 ^ (more + 1) → bytes.length ≤ (groups more n).length → bytes = groups more n) := by
  induction h generalizing more with
  | @last b free =>
    have alone : groups more b.toNat = [b] := by
      cases more with
      | zero => rw [groups, UInt8.ofNat_toNat]
      | succ more => rw [groups, if_pos free, UInt8.ofNat_toNat]
    rw [alone]
    exact ⟨Nat.le_refl _, fun _ _ => rfl⟩
  | @more b rest n marked later ih =>
    have filled := later.length_pos
    cases more with
    | zero =>
      rw [groups]
      refine ⟨by simp, fun _ short => absurd short ?_⟩
      simp only [List.length_cons, List.length_nil]
      omega
    | succ more =>
      rw [groups]
      split
      · refine ⟨by simp, fun _ short => absurd short ?_⟩
        simp only [List.length_cons, List.length_nil]
        omega
      · have low : (b.toNat % 128 + 128 * n) % 128 + 128 = b.toNat := by
          have := b.toNat_lt
          omega
        have high : (b.toNat % 128 + 128 * n) / 128 = n := by omega
        obtain ⟨short, unique⟩ := ih more
        rw [low, high, UInt8.ofNat_toNat]
        refine ⟨Nat.succ_le_succ short, fun fits equal => ?_⟩
        rw [unique ?_ (Nat.le_of_succ_le_succ equal)]
        rw [Nat.pow_succ'] at fits
        omega

/-- What is read in words is a way to write a number in at most ten bytes, modulo the width of
words. -/
theorem readShifted?_eq_some {shift : Nat} {word v : UInt64} {bytes rest : Bytes}
    (room : word.toNat < 2 ^ shift) :
    readShifted? shift word bytes = some (v, rest) ↔ ∃ front n, bytes = front ++ rest ∧
      Encodes front n ∧ shift + 7 * front.length < 71 ∧
      v = UInt64.ofNat (word.toNat + 2 ^ shift * n) := by
  induction bytes generalizing shift word with
  | nil =>
    rw [readShifted?]
    simp only [reduceCtorEq, false_iff]
    rintro ⟨front, n, split, group, -⟩
    have filled := group.length_pos
    rw [(List.append_eq_nil_iff.1 split.symm).1] at filled
    exact absurd filled (Nat.lt_irrefl 0)
  | cons b tail ih =>
    rw [readShifted?]
    by_cases inside : shift < 64
    · rw [if_pos inside]
      dsimp only
      rw [or_shifted word b inside room]
      by_cases free : b.toNat < 128
      · rw [if_pos ((mark_eq_zero_iff b).2 free), Nat.mod_eq_of_lt free]
        constructor
        · rintro same
          obtain ⟨rfl, rfl⟩ := Prod.mk.inj (Option.some.inj same)
          exact ⟨[b], b.toNat, rfl, .last free, by simp; omega, rfl⟩
        · rintro ⟨front, n, split, group, -, rfl⟩
          cases group with
          | last =>
            obtain ⟨rfl, rfl⟩ := List.cons.inj split
            rfl
          | more marked =>
            obtain ⟨rfl, -⟩ := List.cons.inj split
            omega
      · have marked : 128 ≤ b.toNat := Nat.not_lt.1 free
        have wider : (UInt64.ofNat (word.toNat + 2 ^ shift * (b.toNat % 128))).toNat <
            2 ^ (shift + 7) := by
          rw [UInt64.toNat_ofNat', Nat.pow_add]
          have : 2 ^ shift * (b.toNat % 128) ≤ 2 ^ shift * 127 := Nat.mul_le_mul_left _ (by omega)
          have := Nat.mod_le (word.toNat + 2 ^ shift * (b.toNat % 128)) (2 ^ 64)
          omega
        have sum (n : Nat) :
            UInt64.ofNat ((UInt64.ofNat (word.toNat + 2 ^ shift * (b.toNat % 128))).toNat
            + 2 ^ (shift + 7) * n) =
              UInt64.ofNat (word.toNat + 2 ^ shift * (b.toNat % 128 + 128 * n)) := by
          rw [UInt64.ofNat_add, UInt64.ofNat_toNat, ← UInt64.ofNat_add, Nat.pow_add, Nat.mul_add,
            Nat.mul_assoc, Nat.add_assoc]
        rw [if_neg (mt (mark_eq_zero_iff b).1 free), ih wider]
        constructor
        · rintro ⟨front, n, rfl, group, short, rfl⟩
          refine ⟨b :: front, _, rfl, .more marked group, ?_, sum n⟩
          rw [List.length_cons]
          omega
        · rintro ⟨front, n, split, group, short, rfl⟩
          cases group with
          | last free' =>
            obtain ⟨rfl, -⟩ := List.cons.inj split
            omega
          | @more _ front n _ group =>
            obtain ⟨rfl, rfl⟩ := List.cons.inj split
            rw [List.length_cons] at short
            exact ⟨front, n, rfl, group, by omega, (sum n).symm⟩
    · rw [if_neg inside]
      simp only [reduceCtorEq, false_iff]
      rintro ⟨front, n, -, group, short, -⟩
      have filled := group.length_pos
      omega

/-! ## Numbers of a word -/

theorem word_fits (v : UInt64) : v.toNat < 128 ^ (9 + 1) :=
  Nat.lt_trans v.toNat_lt (by decide)

theorem put_eq_varint (out : Bytes) (v : UInt64) : put out v = out ++ varint v :=
  put_eq 9 out v (word_fits v)

theorem encodes_varint (v : UInt64) : Encodes (varint v) v.toNat := encodes_groups 9 _ (word_fits v)

theorem readNumber?_eq_some {bytes rest : Bytes} {v : UInt64} :
    readNumber? bytes = some (v, rest) ↔ ∃ front n, bytes = front ++ rest ∧ Encodes front n ∧
      front.length ≤ 10 ∧ v = UInt64.ofNat n := by
  rw [readNumber?, readShifted?_eq_some (by decide)]
  constructor
  · rintro ⟨front, n, split, group, short, same⟩
    exact ⟨front, n, split, group, by omega, by simpa using same⟩
  · rintro ⟨front, n, split, group, short, same⟩
    exact ⟨front, n, split, group, by omega, by simpa using same⟩

theorem readNumber?_varint (v : UInt64) (rest : Bytes) :
    readNumber? (varint v ++ rest) = some (v, rest) :=
  readNumber?_eq_some.2 ⟨varint v, v.toNat, rfl, encodes_varint v, length_groups_le 9 _, by simp⟩

/-- Whatever is read as a number takes up no less than the number is written in. -/
theorem length_varint_le {bytes rest : Bytes} {v : UInt64}
    (read : readNumber? bytes = some (v, rest)) :
    (varint v).length + rest.length ≤ bytes.length := by
  obtain ⟨front, n, rfl, group, short, rfl⟩ := readNumber?_eq_some.1 read
  rw [List.length_append]
  refine Nat.add_le_add_right ?_ _
  by_cases full : front.length = 10
  · exact full ▸ length_groups_le 9 _
  · -- Nine groups do not fill a word, so nothing has been dropped.
    have small : n < 128 ^ 9 :=
      Nat.lt_of_lt_of_le group.lt (Nat.pow_le_pow_right (by decide) (by omega))
    have whole : (UInt64.ofNat n).toNat = n :=
      UInt64.toNat_ofNat_of_lt (Nat.lt_trans small (by decide))
    rw [varint, whole]
    exact (groups_shortest group 9).1

theorem varint_append_injective {v w : UInt64} {rest rest' : Bytes}
    (same : varint v ++ rest = varint w ++ rest') : v = w ∧ rest = rest' := by
  have read := readNumber?_varint v rest
  rw [same, readNumber?_varint w rest'] at read
  exact (Prod.mk.inj (Option.some.inj read)).imp Eq.symm Eq.symm

/-- The highest bit of a word is in the tenth group. -/
theorem length_varint_of_neg {n : Int64} (negative : n < 0) : (varint n.toUInt64).length = 10 := by
  have sign : n.toInt < 0 := Int64.lt_iff_toInt_lt.1 negative
  have high : 2 ^ 63 ≤ n.toUInt64.toNat := by
    have two : n.toInt = (n.toUInt64.toNat : Int).bmod (2 ^ 64) := by
      rw [← Int64.toInt_toBitVec, BitVec.toInt_eq_toNat_bmod]
      rfl
    rw [Int.bmod_def] at two
    have := n.toUInt64.toNat_lt
    omega
  have short : (varint n.toUInt64).length ≤ 10 := length_groups_le 9 _
  by_cases full : (varint n.toUInt64).length = 10
  · exact full
  · have small := Nat.lt_of_lt_of_le (encodes_varint n.toUInt64).lt
      (Nat.pow_le_pow_right (show 0 < 128 by decide) (show (varint n.toUInt64).length ≤ 9 by omega))
    have bound : 128 ^ 9 = 2 ^ 63 := by decide
    omega

theorem putMessage_eq_field (out : Bytes) (tag : UInt8) (payload : Bytes) :
    putMessage out tag payload = out ++ field tag payload := by
  rw [putMessage, put_eq_varint, field]
  simp only [List.append_assoc, List.cons_append, List.nil_append]

theorem readMessage?_field (tag : UInt8) (payload rest : Bytes)
    (fits : payload.length < UInt64.size) :
    readMessage? (field tag payload ++ rest) = some ((tag, payload), rest) := by
  have length : (UInt64.ofNat payload.length).toNat = payload.length :=
    UInt64.toNat_ofNat_of_lt fits
  rw [field, List.cons_append, List.cons_append, List.append_assoc, readMessage?,
    readNumber?_varint, Option.bind_some]
  simp [length]

/-- A number is written in the shortest way and in no other of this length, with all bytes but the
last marked, and a reader gets it back with whatever follows it. So written numbers are prefix-free,
and a message is read back from where it starts. -/
theorem varint_canonical :
    (∀ v : UInt64, (∀ out, put out v = out ++ varint v) ∧
      1 ≤ (varint v).length ∧ (varint v).length ≤ 10 ∧ Encodes (varint v) v.toNat ∧
      (∃ front last, varint v = front ++ [last] ∧ (∀ b ∈ front, b &&& 0x80 ≠ 0) ∧
        last &&& 0x80 = 0) ∧
      (∀ rest, readNumber? (varint v ++ rest) = some (v, rest)) ∧
      (∀ bytes rest, readNumber? bytes = some (v, rest) →
        (varint v).length + rest.length ≤ bytes.length) ∧
      ∀ bytes, Encodes bytes v.toNat → bytes.length ≤ (varint v).length → bytes = varint v) ∧
    (∀ (v w : UInt64) (rest rest' : Bytes), varint v ++ rest = varint w ++ rest' →
      v = w ∧ rest = rest') ∧
    (∀ n : Int64, n < 0 → (varint n.toUInt64).length = 10) ∧
    (∀ (out : Bytes) (tag : UInt8) (payload : Bytes),
      putMessage out tag payload = out ++ field tag payload) ∧
    ∀ (out : Bytes) (tag : UInt8) (payload rest : Bytes), payload.length < UInt64.size →
      readMessage? ((putMessage out tag payload ++ rest).drop out.length)
        = some ((tag, payload), rest) := by
  refine ⟨fun v => ⟨(put_eq_varint · v), (encodes_varint v).length_pos, length_groups_le 9 _,
    encodes_varint v, (encodes_varint v).marks, readNumber?_varint v, fun _ _ => length_varint_le,
    fun bytes group short => (groups_shortest group 9).2 (word_fits v) short⟩,
    fun _ _ _ _ => varint_append_injective, fun _ => length_varint_of_neg, putMessage_eq_field, ?_⟩
  intro out tag payload rest fits
  rw [putMessage_eq_field, List.append_assoc, List.drop_left,
    readMessage?_field tag payload rest fits]

/-- A longer way to write three hundred, the number with all bits set, and a message behind another
one. -/
theorem varint_canonical_three_hundred :
    (readNumber? [0xac, 0x82, 0x00, 0x07] = some (300, [0x07]) ∧
      (varint 300).length + [(0x07 : UInt8)].length ≤ [(0xac : UInt8), 0x82, 0x00, 0x07].length) ∧
    (Encodes [0xac, 0x02] (300 : UInt64).toNat ∧
      [(0xac : UInt8), 0x02].length ≤ (varint 300).length ∧
      [0xac, 0x02] = varint 300) ∧
    ((-1 : Int64) < 0 ∧ (varint (-1 : Int64).toUInt64).length = 10) ∧
    ((List.replicate 300 (7 : UInt8)).length < UInt64.size ∧
      readMessage? ((putMessage (field 0x0a [1]) 0x12 (List.replicate 300 7) ++ [2]).drop
          (field 0x0a [1]).length)
        = some ((0x12, List.replicate 300 7), [2])) := by
  obtain ⟨numbers, -, negative, -, messages⟩ := varint_canonical
  obtain ⟨-, -, -, own, -, -, shortest, unique⟩ := numbers 300
  have read : readNumber? [0xac, 0x82, 0x00, 0x07] = some (300, [0x07]) := by decide
  have spelled : varint 300 = [0xac, 0x02] := by decide
  have fits : (List.replicate 300 (7 : UInt8)).length < UInt64.size := by
    rw [List.length_replicate]
    decide
  rw [spelled] at own
  exact ⟨⟨read, shortest _ _ read⟩, ⟨own, by decide, unique _ own (by decide)⟩,
    ⟨by decide, negative _ (by decide)⟩, fits, messages _ _ _ _ fits⟩

end LightClient.Wire
