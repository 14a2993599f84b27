import LightClient.Proofs.Codecs

/-!
# The text of a hash

A text stands for a hash exactly if it consists, behind at most one mark, of 64 hexadecimal digits
of either case, two for each byte with the high one first. The grammar is told in characters, while
reading goes by bytes: a character of several bytes counts as often in the length, and none of its
bytes is a digit.
-/
namespace LightClient

namespace Hex

/-- The characters of a text behind one leading mark. -/
def unmarked (text : String) : List Char :=
  match text.toList with
  | '0' :: 'x' :: rest => rest
  | all => all

/-- The UTF-8 bytes of characters. -/
def utf8 (text : List Char) : Bytes := text.flatMap String.utf8EncodeChar

/-- The value of a character that is a hexadecimal digit, in either case. -/
def digit? (c : Char) : Option Nat := "0123456789abcdef".toList.idxOf? c.toLower

/-- The values of the digits of a byte string, of each byte the high one first. -/
def halves (bytes : Bytes) : List Nat := bytes.flatMap fun b => [b.toNat / 16, b.toNat % 16]

/-- The characters are digits with the values of the digits of the bytes. -/
def Spells (text : List Char) (bytes : Bytes) : Prop := text.map digit? = (halves bytes).map some

/-- A byte that stands alone for a hexadecimal digit. -/
def IsDigit (b : UInt8) : Prop := ∃ n, digit? (Char.ofNat b.toNat) = some n

theorem utf8EncodeChar_ascii {c : Char} (ascii : c.toNat < 128) :
    String.utf8EncodeChar c = [UInt8.ofNat c.toNat] := by
  change c.val.toNat < 128 at ascii
  change _ = [UInt8.ofNat c.val.toNat]
  unfold String.utf8EncodeChar
  dsimp only
  rw [if_pos (by omega)]

theorem value?_eq (b : UInt8) : value? b = digit? (Char.ofNat b.toNat) := by
  have every : ∀ n : Fin 256, value? (UInt8.ofNat n) = digit? (Char.ofNat n) := by
    decide +kernel
  simpa using every ⟨b.toNat, b.toNat_lt⟩

theorem ascii_of_digit {c : Char} {n : Nat} (h : digit? c = some n) : c.toNat < 128 := by
  have letters : "0123456789abcdef".toList.all (·.toNat < 128) = true := by decide
  have member : c.toLower ∈ "0123456789abcdef".toList := by
    apply List.isSome_idxOf?.1
    exact Option.isSome_of_eq_some h
  have small := of_decide_eq_true (List.all_eq_true.1 letters _ member)
  rw [Text.toNat_toLower] at small
  split at small <;> omega

theorem bounds_of_value {b : UInt8} {n : Nat} (h : value? b = some n) : b.toNat < 128 ∧ n < 16 := by
  simp only [value?] at h
  split at h
  · cases h
    omega
  · split at h
    · cases h
      omega
    · split at h
      · cases h
        omega
      · cases h

/-- A text that starts with a byte below 128 starts with its character. -/
theorem utf8_eq_cons {text : List Char} {b : UInt8} {rest : Bytes} (h : utf8 text = b :: rest)
    (ascii : b.toNat < 128) : ∃ tail, text = Char.ofNat b.toNat :: tail ∧ rest = utf8 tail := by
  cases text with
  | nil => cases h
  | cons c tail =>
    change String.utf8EncodeChar c ++ utf8 tail = b :: rest at h
    cases first : String.utf8EncodeChar c with
    | nil => exact absurd first (by simp [String.utf8EncodeChar_ne_nil])
    | cons d more =>
      rw [first] at h
      obtain ⟨rfl, later⟩ := List.cons.inj h
      have mem : d ∈ String.utf8EncodeChar c := first ▸ List.mem_cons_self
      obtain ⟨alone, same⟩ := Bytes.utf8EncodeChar_of_mem mem ascii
      rw [first] at alone
      obtain ⟨-, rfl⟩ := List.cons.inj alone
      rw [← same, Char.ofNat_toNat]
      exact ⟨tail, rfl, later.symm⟩

theorem ofText_eq (text : String) : Bytes.ofText text = utf8 text.toList := by
  obtain ⟨all, rfl⟩ : ∃ all, text = String.ofList all := ⟨text.toList, String.ofList_toList.symm⟩
  change all.utf8Encode.data.toList = _
  simp [List.utf8Encode, utf8]

theorem dropMark_eq (text : String) : dropMark text = utf8 (unmarked text) := by
  unfold dropMark unmarked
  rw [ofText_eq]
  split
  · rename_i rest marked
    obtain ⟨tail, whole, later⟩ := utf8_eq_cons marked (by decide)
    obtain ⟨tail', rfl, rfl⟩ := utf8_eq_cons later.symm (by decide)
    rw [whole]
    rfl
  · rename_i plain
    split
    · rename_i rest marked
      rw [marked] at plain
      exact absurd rfl (plain (utf8 rest))
    · rfl

/-- Digits in characters are digits in bytes. -/
theorem map_value?_utf8 (text : List Char) (values : List Nat) :
    (utf8 text).map value? = values.map some ↔ text.map digit? = values.map some := by
  induction text generalizing values with
  | nil => rfl
  | cons c rest ih =>
    cases values with
    | nil =>
      have some_byte : utf8 (c :: rest) ≠ [] := by simp [utf8]
      constructor
      · intro h
        exact absurd (List.map_eq_nil_iff.1 h) some_byte
      · intro h
        cases h
    | cons n values =>
      constructor
      · intro h
        obtain ⟨b, more, bytes, value, later⟩ := List.map_eq_cons_iff.1 h
        obtain ⟨tail, split, rfl⟩ := utf8_eq_cons bytes (bounds_of_value value).1
        obtain ⟨rfl, rfl⟩ := List.cons.inj split
        rw [value?_eq] at value
        rw [List.map_cons, List.map_cons, value, (ih values).1 later]
      · intro h
        obtain ⟨value, later⟩ := List.cons.inj h
        have ascii := ascii_of_digit value
        have byte : value? (UInt8.ofNat c.toNat) = some n := by
          rw [value?_eq, UInt8.toNat_ofNat_of_lt' (Nat.lt_trans ascii (by decide)),
            Char.ofNat_toNat]
          exact value
        have bytes : utf8 (c :: rest) = UInt8.ofNat c.toNat :: utf8 rest := by
          change String.utf8EncodeChar c ++ utf8 rest = _
          rw [utf8EncodeChar_ascii ascii]
          rfl
        rw [bytes, List.map_cons, List.map_cons, byte, (ih values).2 later]

theorem length_halves (bytes : Bytes) : (halves bytes).length = 2 * bytes.length := by
  induction bytes with
  | nil => rfl
  | cons b rest ih =>
    change (halves rest).length + 2 = _
    rw [ih, List.length_cons]
    omega

theorem halves_cons (b : UInt8) (rest : Bytes) :
    halves (b :: rest) = b.toNat / 16 :: b.toNat % 16 :: halves rest := rfl

theorem decodeFrom_pair {position h l : Nat} {high low : UInt8} {rest : Bytes}
    (isHigh : value? high = some h) (isLow : value? low = some l) :
    decodeFrom position (high :: low :: rest) =
      (decodeFrom (position + 2) rest).map (UInt8.ofNat (16 * h + l) :: ·) := by
  rw [decodeFrom, isHigh, isLow]

/-- Reading succeeds exactly on the digits of the result. -/
theorem decodeFrom_eq_ok {position : Nat} {text bytes : Bytes} :
    decodeFrom position text = .ok bytes ↔ text.map value? = (halves bytes).map some := by
  induction position, text using decodeFrom.induct generalizing bytes with
  | case1 position =>
    cases bytes with
    | nil => simp [decodeFrom, halves]
    | cons b rest => simp [decodeFrom, halves_cons]
  | case2 position b =>
    constructor
    · intro h
      cases h
    · intro h
      have odd := congrArg List.length h
      rw [List.length_map, List.length_map, length_halves, List.length_singleton] at odd
      omega
  | case3 position high low rest noHigh =>
    cases bytes with
    | nil => simp [decodeFrom, noHigh, halves]
    | cons b tail => simp [decodeFrom, noHigh, halves_cons]
  | case4 position high low rest h noLow isHigh =>
    cases bytes with
    | nil => simp [decodeFrom, isHigh, noLow, halves]
    | cons b tail => simp [decodeFrom, isHigh, noLow, halves_cons]
  | case5 position high low rest h l isLow isHigh ih =>
    have boundHigh := (bounds_of_value isHigh).2
    have boundLow := (bounds_of_value isLow).2
    have whole : (UInt8.ofNat (16 * h + l)).toNat = 16 * h + l :=
      UInt8.toNat_ofNat_of_lt' (Nat.lt_of_lt_of_le (by omega : _ < 256) (Nat.le_refl _))
    rw [decodeFrom_pair isHigh isLow, List.map_cons, List.map_cons, isHigh, isLow]
    constructor
    · intro read
      cases later : decodeFrom (position + 2) rest with
      | error e =>
        rw [later] at read
        cases read
      | ok tail =>
        rw [later] at read
        cases read
        rw [ih.1 later, halves_cons, whole, show (16 * h + l) / 16 = h by omega,
          show (16 * h + l) % 16 = l by omega]
        rfl
    · intro digits
      cases bytes with
      | nil => cases digits
      | cons b tail =>
        rw [halves_cons, List.map_cons, List.map_cons] at digits
        obtain ⟨first, digits⟩ := List.cons.inj digits
        obtain ⟨second, digits⟩ := List.cons.inj digits
        have first := Option.some.inj first
        have second := Option.some.inj second
        have same : UInt8.ofNat (16 * h + l) = b := by
          apply UInt8.toNat_inj.1
          omega
        rw [ih.2 digits, ← same]
        rfl

/-- Reading pairs fails at the first byte that is no digit. -/
theorem decodeFrom_eq_error {position : Nat} {text : Bytes} {e : Error} (even : text.length % 2 = 0)
    (failed : decodeFrom position text = .error e) :
    ∃ i b, text[i]? = some b ∧ value? b = none ∧ (∀ j < i, ∀ c ∈ text[j]?, (value? c).isSome) ∧
      e = .badDigit b (position + i) := by
  induction position, text using decodeFrom.induct with
  | case1 position => cases failed
  | case2 position b => simp at even
  | case3 position high low rest noHigh =>
    rw [decodeFrom, noHigh] at failed
    cases failed
    exact ⟨0, high, rfl, noHigh, fun j early => absurd early (Nat.not_lt_zero j), rfl⟩
  | case4 position high low rest h noLow isHigh =>
    rw [decodeFrom, isHigh, noLow] at failed
    cases failed
    refine ⟨1, low, rfl, noLow, fun j early c member => ?_, rfl⟩
    obtain rfl : j = 0 := by omega
    obtain rfl := Option.some.inj member
    rw [isHigh]
    rfl
  | case5 position high low rest h l isLow isHigh ih =>
    rw [decodeFrom_pair isHigh isLow] at failed
    cases later : decodeFrom (position + 2) rest with
    | ok tail =>
      rw [later] at failed
      cases failed
    | error e' =>
      rw [later] at failed
      cases failed
      have evenRest : rest.length % 2 = 0 := by
        simp only [List.length_cons] at even
        omega
      obtain ⟨i, b, at_, bad, digits, rfl⟩ := ih evenRest later
      refine ⟨i + 2, b, at_, bad, fun j early c member => ?_, by rw [Nat.add_assoc, Nat.add_comm 2]⟩
      rcases j with _ | _ | j
      · obtain rfl := Option.some.inj member
        rw [isHigh]
        rfl
      · obtain rfl := Option.some.inj member
        rw [isLow]
        rfl
      · exact digits j (by omega) c member

theorem spells_iff {text : List Char} {bytes : Bytes} :
    Spells text bytes ↔ decodeFrom 0 (utf8 text) = .ok bytes := by
  rw [decodeFrom_eq_ok, map_value?_utf8]
  rfl

theorem Spells.length_utf8 {text : List Char} {bytes : Bytes} (h : Spells text bytes) :
    (utf8 text).length = 2 * bytes.length ∧ text.length = 2 * bytes.length := by
  have chars := congrArg List.length h
  have digits := congrArg List.length ((map_value?_utf8 text (halves bytes)).2 h)
  rw [List.length_map, List.length_map, length_halves] at chars digits
  exact ⟨digits, chars⟩

theorem Spells.digit {text : List Char} {bytes : Bytes} {b : UInt8} (h : Spells text bytes)
    (member : b ∈ utf8 text) : IsDigit b := by
  have value : value? b ∈ (utf8 text).map value? := List.mem_map_of_mem member
  rw [(map_value?_utf8 text (halves bytes)).2 h] at value
  obtain ⟨n, -, same⟩ := List.mem_map.1 value
  rw [value?_eq] at same
  exact ⟨n, same.symm⟩

theorem dropMark_mark (text : String) : dropMark ("0x" ++ text) = Bytes.ofText text := by
  rw [dropMark_eq, ofText_eq, unmarked, String.toList_append]
  rfl

end Hex

namespace Hash
open Hex

/-- What a text is read as: the hash whose digits it shows behind at most one mark, or what is wrong
with it first. The length is told in bytes that the digits stand for. -/
inductive Reads (text : String) : Except Error Hash → Prop
  | hash {h : Hash} (whole : (unmarked text).length = 64)
      (spelled : Spells (unmarked text) h.bytes) :
      Reads text (.ok h)
  | wrongLength (other : (utf8 (unmarked text)).length ≠ 64) :
      Reads text (.error (.wrongLength ((utf8 (unmarked text)).length / 2)))
  | badDigit {b : UInt8} {position : Nat} (whole : (utf8 (unmarked text)).length = 64)
      (found : (utf8 (unmarked text))[position]? = some b) (bad : ¬ IsDigit b)
      (first : ∀ earlier < position, ∀ c ∈ (utf8 (unmarked text))[earlier]?, IsDigit c) :
      Reads text (.error (.badHex (.badDigit b position)))

theorem isDigit_iff {b : UInt8} : IsDigit b ↔ (value? b).isSome := by
  rw [value?_eq, Option.isSome_iff_exists]
  rfl

/-- What is read of 64 bytes. -/
theorem ofHex_of_whole {text : String} (whole : (utf8 (unmarked text)).length = 64) :
    ofHex text = match decodeFrom 0 (utf8 (unmarked text)) with
      | .ok bytes => ofBytes bytes
      | .error cause => .error (.badHex cause) := by
  have pairs : decode (utf8 (unmarked text)) = decodeFrom 0 (utf8 (unmarked text)) :=
    if_neg (by omega)
  rw [← pairs]
  rw [← dropMark_eq] at whole ⊢
  exact if_pos whole

theorem ofHex_reads (text : String) : Reads text (ofHex text) := by
  by_cases whole : (utf8 (unmarked text)).length = 64
  · rw [ofHex_of_whole whole]
    cases decoded : decodeFrom 0 (utf8 (unmarked text)) with
    | ok bytes =>
      have spelled := spells_iff.2 decoded
      obtain ⟨digits, chars⟩ := spelled.length_utf8
      have size : bytes.length = 32 := by omega
      have read : ofBytes bytes = .ok ⟨bytes, size⟩ := dif_pos size
      dsimp only
      rw [read]
      exact .hash (by omega) spelled
    | error e =>
      obtain ⟨i, b, found, bad, first, rfl⟩ := decodeFrom_eq_error (by rw [whole]) decoded
      dsimp only
      rw [Nat.zero_add]
      refine .badDigit whole found ?_ fun j early c member => isDigit_iff.2 (first j early c member)
      rw [isDigit_iff, bad]
      exact nofun
  · have read : ofHex text = .error (.wrongLength ((utf8 (unmarked text)).length / 2)) := by
      rw [ofHex, dropMark_eq, if_neg whole]
    rw [read]
    exact .wrongLength whole

theorem ofHex_of_reads {text : String} {result : Except Error Hash} (h : Reads text result) :
    ofHex text = result := by
  cases h with
  | @hash h chars spelled =>
    have whole : (utf8 (unmarked text)).length = 64 := by
      rw [spelled.length_utf8.1, h.length_bytes]
    rw [ofHex_of_whole whole, spells_iff.1 spelled]
    exact dif_pos h.length_bytes
  | wrongLength other => rw [ofHex, dropMark_eq, if_neg other]
  | @badDigit b position whole found bad first =>
    have reads := ofHex_reads text
    generalize ofHex text = result at reads
    cases reads with
    | hash _ spelled => exact absurd (spelled.digit (List.mem_of_getElem? found)) bad
    | wrongLength other => exact absurd whole other
    | @badDigit b' position' _ found' bad' first' =>
      rcases Nat.lt_trichotomy position position' with early | rfl | late
      · exact absurd (first' position early b found) bad
      · rw [found] at found'
        obtain rfl := Option.some.inj found'
        rfl
      · exact absurd (first position' late b' found') bad'

/-- Every text is read as the grammar says. A written hash is read back, with a mark or without. -/
theorem ofHex_follows_grammar :
    (∀ text result, ofHex text = result ↔ Reads text result) ∧
    ∀ h : Hash, ofHex h.toHex = .ok h ∧ ofHex ("0x" ++ h.toHex) = .ok h := by
  refine ⟨fun text result => ⟨fun read => read ▸ ofHex_reads text, ofHex_of_reads⟩, fun h => ?_⟩
  have same : dropMark ("0x" ++ h.toHex) = dropMark h.toHex := by
    rw [dropMark_mark, toHex, dropMark_encode]
  have read := ofHex_toHex h
  refine ⟨read, ?_⟩
  unfold ofHex at read ⊢
  rw [same]
  exact read

/-- The last of 63 characters makes up the length with its two bytes. -/
example : ofHex (String.ofList (List.replicate 62 'a') ++ "ä") =
    .error (.badHex (.badDigit 0xc3 62)) := rfl

end Hash

end LightClient
