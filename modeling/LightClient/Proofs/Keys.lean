import LightClient.Proofs.Url
import LightClient.Verifier

/-!
# Keys of the cache

Each part of a key ends where a separator stands that the part after it cannot contain. So the key
of a block tells partition and height, the key of a walk tells genesis, height and digest, and among
the positions of chains of one name the key tells scope and index.
-/
namespace LightClient

/-- Where two lists that are the same are cut at some `c`, the cuts are one or something stands
between. -/
theorem List.append_cons_eq_iff {α : Type} {c : α} {a a' d d' : List α} :
    a ++ c :: d = a' ++ c :: d' ↔ (a = a' ∧ d = d') ∨
      (∃ between, a' = a ++ c :: between ∧ d = between ++ c :: d') ∨
        ∃ between, a = a' ++ c :: between ∧ d' = between ++ c :: d := by
  constructor
  · intro same
    rcases List.append_eq_append_iff.1 same with ⟨k, first, rest⟩ | ⟨k, first, rest⟩
    · cases k with
      | nil => exact .inl ⟨by simpa using first.symm, (List.cons.inj rest).2⟩
      | cons e between =>
        obtain ⟨rfl, later⟩ := List.cons.inj rest
        exact .inr (.inl ⟨between, first, later⟩)
    · cases k with
      | nil => exact .inl ⟨by simpa using first, (List.cons.inj rest).2.symm⟩
      | cons e between =>
        obtain ⟨rfl, later⟩ := List.cons.inj rest
        exact .inr (.inr ⟨between, first, later⟩)
  · rintro (⟨rfl, rfl⟩ | ⟨between, rfl, rfl⟩ | ⟨between, rfl, rfl⟩) <;> simp

/-- Where the last `c` stands is determined. -/
theorem List.split_at_last {α : Type} {c : α} {a a' d d' : List α}
    (h : a ++ c :: d = a' ++ c :: d') (hd : c ∉ d) (hd' : c ∉ d') : a = a' ∧ d = d' := by
  rcases List.append_cons_eq_iff.1 h with same | ⟨between, -, rest⟩ | ⟨between, -, rest⟩
  · exact same
  · exact absurd (by simp [rest]) hd
  · exact absurd (by simp [rest]) hd'

namespace Numeral

theorem toList_uint64 (n : UInt64) :
    (toString n).toList = Nat.toDigits 10 n.toNat := Nat.toList_repr

theorem isDigit_of_mem_uint64 {n : UInt64} {c : Char} (h : c ∈ (toString n).toList) :
    c.isDigit = true := by
  rw [toList_uint64] at h
  exact Nat.isDigit_of_mem_toDigits (by decide) (by decide) h

theorem toDigits_injective {m n : Nat} (h : Nat.toDigits 10 m = Nat.toDigits 10 n) : m = n := by
  rw [← Nat.ofDigitChars_ten_toDigits (n := m), h, Nat.ofDigitChars_ten_toDigits]

theorem uint64_injective {m n : UInt64} (h : (toString m).toList = (toString n).toList) :
    m = n := by
  rw [toList_uint64, toList_uint64] at h
  exact UInt64.toNat_inj.1 (toDigits_injective h)

/-- A negative number starts with a sign, which is no digit. -/
theorem toList_int (i : Int) : (toString i).toList =
    if i < 0 then '-' :: Nat.toDigits 10 i.natAbs else Nat.toDigits 10 i.natAbs := by
  cases i with
  | ofNat n => exact (Nat.toList_repr).trans (by simp)
  | negSucc n =>
    change ("-" ++ Nat.repr (n + 1)).toList = _
    simp [Int.negSucc_lt_zero]

theorem int_injective {i k : Int} (h : (toString i).toList = (toString k).toList) : i = k := by
  rw [toList_int, toList_int] at h
  have sign : ∀ n : Nat, '-' ∉ Nat.toDigits 10 n := fun n hn =>
    absurd (Nat.isDigit_of_mem_toDigits (by decide) (by decide) hn) (by decide)
  split at h <;> split at h
  · have := toDigits_injective (List.cons.inj h).2
    omega
  · exact absurd (h ▸ List.mem_cons_self) (sign _)
  · exact absurd (h ▸ List.mem_cons_self) (sign _)
  · have := toDigits_injective h
    omega

theorem colon_notMem_int (i : Int) : ':' ∉ (toString i).toList := by
  rw [toList_int]
  have digits : ':' ∉ Nat.toDigits 10 i.natAbs := fun h =>
    absurd (Nat.isDigit_of_mem_toDigits (by decide) (by decide) h) (by decide)
  split
  · simpa using digits
  · exact digits

end Numeral

namespace Hex

theorem digits_injective {a b : UInt8} (h : digits a = digits b) : a = b := by
  have value : ∀ m n : Fin 16, Nat.digitChar m = Nat.digitChar n → m = n := by decide
  simp only [digits, List.cons.injEq, and_true] at h
  have high := congrArg Fin.val
    (value ⟨a.toNat / 16, by have := a.toNat_lt; omega⟩
      ⟨b.toNat / 16, by have := b.toNat_lt; omega⟩ h.1)
  have low := congrArg Fin.val
    (value ⟨a.toNat % 16, by omega⟩ ⟨b.toNat % 16, by omega⟩ h.2)
  dsimp only at high low
  exact UInt8.toNat_inj.1 (by omega)

theorem toList_encode (bytes : Bytes) : (encode bytes).toList = bytes.flatMap digits := by
  simp [encode]

theorem flatMap_digits_injective {a b : Bytes} (h : a.flatMap digits = b.flatMap digits) :
    a = b := by
  induction a generalizing b with
  | nil =>
    cases b with
    | nil => rfl
    | cons y ys => simp [digits] at h
  | cons x xs ih =>
    cases b with
    | nil => simp [digits] at h
    | cons y ys =>
      have parts := List.append_inj (by simpa using h)
        (show (digits x).length = (digits y).length from rfl)
      rw [digits_injective parts.1, ih parts.2]

theorem colon_notMem_encode (bytes : Bytes) : ':' ∉ (encode bytes).toList := by
  have value : ∀ n : Fin 16, Nat.digitChar n ≠ ':' := by decide
  rw [toList_encode]
  intro h
  obtain ⟨byte, -, hc⟩ := List.mem_flatMap.1 h
  simp only [digits, List.mem_cons, List.not_mem_nil, or_false] at hc
  rcases hc with hc | hc
  · exact value ⟨byte.toNat / 16, by have := byte.toNat_lt; omega⟩ hc.symm
  · exact value ⟨byte.toNat % 16, by omega⟩ hc.symm

end Hex

namespace Hash

theorem toHex_injective {a b : Hash} (h : a.toHex = b.toHex) : a = b := by
  have same := congrArg String.toList h
  simp only [toHex, Hex.toList_encode] at same
  have bytes := Hex.flatMap_digits_injective same
  cases a
  cases b
  simp_all

end Hash

namespace Verifier

theorem toList_blockKey (partition : Url) (height : UInt64) :
    (blockKey partition height).toList = partition.text.toList ++ '@' ::
      (toString height).toList := by
  simp only [blockKey, String.toList_append, List.append_assoc]
  rfl

theorem blockKey_injective {p p' : Url} {h h' : UInt64} (same : blockKey p h = blockKey p' h') :
    p = p' ∧ h = h' := by
  have digits : ∀ n : UInt64, '@' ∉ (toString n).toList := fun n hn =>
    absurd (Numeral.isDigit_of_mem_uint64 hn) (by decide)
  have lists := congrArg String.toList same
  rw [toList_blockKey, toList_blockKey] at lists
  obtain ⟨partition, height⟩ := List.split_at_last lists (digits h) (digits h')
  exact ⟨Url.text_injective (String.toList_inj.1 partition), Numeral.uint64_injective height⟩

theorem toList_positionKey (scope : Url) (chain : String) (index : UInt64) :
    (positionKey scope chain index).toList =
      scope.text.toList ++ ('#' :: chain.toList) ++ '/' :: (toString index).toList := by
  simp only [positionKey, String.toList_append, List.append_assoc]
  rfl

/-- The key of a position tells the index, and account and chain as one text. -/
theorem positionKey_parts {u u' : Url} {chain chain' : String} {i i' : UInt64}
    (same : positionKey u chain i = positionKey u' chain' i') :
    u.text.toList ++ '#' :: chain.toList = u'.text.toList ++ '#' :: chain'.toList ∧ i = i' := by
  have digits : ∀ n : UInt64, '/' ∉ (toString n).toList := fun n hn =>
    absurd (Numeral.isDigit_of_mem_uint64 hn) (by decide)
  have lists := congrArg String.toList same
  rw [toList_positionKey, toList_positionKey] at lists
  obtain ⟨front, index⟩ := List.split_at_last lists (digits i) (digits i')
  exact ⟨front, Numeral.uint64_injective index⟩

/-- Positions in chains of one name have different keys. -/
theorem positionKey_injective {u u' : Url} {chain : String} {i i' : UInt64}
    (same : positionKey u chain i = positionKey u' chain i') : u = u' ∧ i = i' := by
  obtain ⟨front, index⟩ := positionKey_parts same
  exact ⟨Url.text_injective (String.toList_inj.1 (List.append_cancel_right front)), index⟩

theorem toList_traceKey (v : Verifier) (height : Int64) (validators : List Validator) :
    (v.traceKey height validators).toList =
      (v.genesis.hash.toHex.toList ++ ':' :: (toString height.toInt).toList) ++
        ':' :: (v.config.algorithm.digest (Validator.encodeSet validators)).toHex.toList := by
  simp only [traceKey, String.toList_append, List.append_assoc]
  rfl

/-- The key of a walk tells the hash of the genesis, the height and the digest of the set. -/
theorem traceKey_injective {v w : Verifier} {h h' : Int64} {set set' : List Validator}
    (same : v.traceKey h set = w.traceKey h' set') :
    v.genesis.hash = w.genesis.hash ∧ h = h' ∧
      v.config.algorithm.digest (Validator.encodeSet set) =
        w.config.algorithm.digest (Validator.encodeSet set') := by
  have lists := congrArg String.toList same
  rw [toList_traceKey, toList_traceKey] at lists
  -- The last part has no colon, so the key is split from behind: first the digest, then the height.
  obtain ⟨front, digest⟩ :=
    List.split_at_last lists (Hex.colon_notMem_encode _) (Hex.colon_notMem_encode _)
  obtain ⟨genesis, height⟩ :=
    List.split_at_last front (Numeral.colon_notMem_int _) (Numeral.colon_notMem_int _)
  exact ⟨Hash.toHex_injective (String.toList_inj.1 genesis),
    Int64.toInt_inj.1 (Numeral.int_injective height),
    Hash.toHex_injective (String.toList_inj.1 digest)⟩

end Verifier

end LightClient
