import LightClient.Json.Token
import LightClient.Proofs.Keys
import Mathlib.Data.List.Basic
import Mathlib.Data.List.TakeWhile

/-!
# Written tokens are scanned again

The written form of a token, followed by something that can no longer belong to it, is scanned to
this token alone. Texts come back character by character, whichever escape stands for each. An
integer of 64 bits, with or without sign, comes back from its decimal form.
-/
namespace LightClient.Json

/-- Whether an integer can be told in JSON as an integer of 64 bits, signed or not. -/
def IsWord (n : Int) : Prop := Int64.minValue.toInt ≤ n ∧ n < UInt64.size

instance (n : Int) : Decidable (IsWord n) := inferInstanceAs (Decidable (_ ∧ _))

namespace Numeral

theorem digits_toDigits (n : Nat) :
    digits (Nat.toDigits 10 n) = ((Nat.toDigits 10 n).map fun c => c.toNat - 48, []) := by
  have all : ∀ c ∈ Nat.toDigits 10 n, c.isDigit = true := fun c hc =>
    Nat.isDigit_of_mem_toDigits (by decide) (by decide) hc
  rw [digits, List.takeWhile_eq_self_iff.2 all, List.dropWhile_eq_nil_iff.2 all]

theorem valueOf_toDigits (n : Nat) :
    valueOf ((Nat.toDigits 10 n).map fun c => c.toNat - 48) = n := by
  rw [valueOf, List.foldl_map]
  exact (Nat.ofDigitChars_eq_foldl).symm.trans Nat.ofDigitChars_ten_toDigits

/-- Only zero starts with the digit zero. -/
theorem head?_toDigits {n : Nat} (pos : 0 < n) : (Nat.toDigits 10 n).head? ≠ some '0' := by
  induction n using Nat.strongRecOn with
  | _ n ih =>
    by_cases small : n < 10
    · rw [Nat.toDigits_of_lt_base small, List.head?_cons]
      intro zero
      have := Nat.digitChar_eq_zero.1 (Option.some.inj zero)
      omega
    · rw [Nat.toDigits_of_base_le (by decide) (by omega),
        List.head?_append_of_ne_nil _ Nat.toDigits_ne_nil]
      exact ih (n / 10) (by omega) (by omega)

/-- The numeral of an integer, as its decimal form is read. -/
def ofInt (n : Int) : Numeral where
  negative := n < 0
  whole := (Nat.toDigits 10 n.natAbs).map fun c => c.toNat - 48
  fraction := []
  exponent := none

/-- The digits of a number do not start with a needless zero. -/
theorem leading_toDigits (n : Nat) : ∃ d ds,
    (Nat.toDigits 10 n).map (fun c => c.toNat - 48) = d :: ds ∧ (d = 0 → ds = []) := by
  cases digits : Nat.toDigits 10 n with
  | nil => exact absurd digits Nat.toDigits_ne_nil
  | cons c cs =>
    refine ⟨_, _, rfl, fun (zero : c.toNat - 48 = 0) => ?_⟩
    have digit : c.isDigit = true :=
      Nat.isDigit_of_mem_toDigits (by decide) (by decide) (digits ▸ List.mem_cons_self)
    have same : c = '0' := by
      apply Char.toNat_inj.1
      simp only [Char.isDigit, Bool.and_eq_true, decide_eq_true_eq, ge_iff_le,
        UInt32.le_iff_toNat_le] at digit
      change 48 ≤ c.toNat ∧ c.toNat ≤ 57 at digit
      change c.toNat = 48
      omega
    rcases Nat.eq_zero_or_pos n with rfl | pos
    · rw [Nat.toDigits_zero, List.cons.injEq] at digits
      rw [← digits.2, List.map_nil]
    · exact absurd (by rw [digits, List.head?_cons, same]) (head?_toDigits pos)

/-- Reads digits behind a sign, or at the start of a text. -/
theorem ofChars?_digits (n : Nat) : ofChars? ('-' :: Nat.toDigits 10 n) =
      some ⟨true, (Nat.toDigits 10 n).map fun c => c.toNat - 48, [], none⟩ ∧
    ofChars? (Nat.toDigits 10 n) =
      some ⟨false, (Nat.toDigits 10 n).map fun c => c.toNat - 48, [], none⟩ := by
  obtain ⟨d, ds, whole, leading⟩ := leading_toDigits n
  have read : digits (Nat.toDigits 10 n) = (d :: ds, []) := by rw [digits_toDigits, whole]
  rw [whole]
  constructor
  · simp only [ofChars?, read]
    split
    · contradiction
    · simp_all
    · rfl
  · unfold ofChars?
    split
    rename_i negative rest parts
    have unsigned : (false, Nat.toDigits 10 n) = (negative, rest) := by
      rw [← parts]
      split
      · rename_i rest sign
        have digit : ('-').isDigit = true :=
          Nat.isDigit_of_mem_toDigits (by decide) (by decide) (sign ▸ List.mem_cons_self)
        exact absurd digit (by decide)
      · rfl
    obtain ⟨rfl, rfl⟩ := Prod.mk.inj unsigned
    rw [read]
    dsimp only
    split
    · contradiction
    · simp_all
    · rfl

theorem ofChars?_toString (n : Int) : ofChars? (toString n).toList = some (ofInt n) := by
  rw [LightClient.Numeral.toList_int, ofInt]
  by_cases sign : n < 0
  · rw [if_pos sign, (ofChars?_digits n.natAbs).1, decide_eq_true sign]
  · rw [if_neg sign, (ofChars?_digits n.natAbs).2, decide_eq_false sign]

theorem value_ofInt {n : Int} (word : IsWord n) : (ofInt n).value = .integer n := by
  obtain ⟨low, high⟩ := word
  have magnitude : valueOf (ofInt n).whole = n.natAbs := valueOf_toDigits n.natAbs
  unfold value
  rw [magnitude]
  by_cases sign : n < 0
  · have same : -(n.natAbs : Int) = n := by omega
    have negative : (ofInt n).negative = true := decide_eq_true sign
    rw [if_neg (by simp [negative]), if_pos ⟨rfl, rfl, negative, by omega, by omega⟩, same]
  · have same : (n.natAbs : Int) = n := by omega
    have negative : (ofInt n).negative = false := decide_eq_false sign
    rw [if_pos ⟨rfl, rfl, negative, by simp only [maxWord]; omega⟩, same]

end Numeral

namespace Token

/-- Nothing at the start of a text continues a word or a numeral. -/
def Delimited (rest : List Char) : Prop :=
  ∀ c ∈ rest.head?, c.isAlpha = false ∧ isNumeralChar c = false

variable {done : List Token} {token : Token} {rest : List Char}

theorem scanFrom_numeral {chars : List Char} (inside : ∀ c ∈ chars, isNumeralChar c = true)
    (seen : List Char) : scanFrom done (.numeral seen) (chars ++ rest) =
      scanFrom done (.numeral (chars.reverse ++ seen)) rest := by
  induction chars generalizing seen with
  | nil => rfl
  | cons c chars ih =>
    have here := inside c List.mem_cons_self
    rw [List.cons_append, scanFrom, step?, if_pos here, List.reverse_cons, List.append_assoc]
    exact ih (fun d hd => inside d (List.mem_cons_of_mem _ hd)) _

theorem scanFrom_word {letters : List Char} (inside : ∀ c ∈ letters, c.isAlpha = true)
    (seen : List Char) : scanFrom done (.word seen) (letters ++ rest) =
      scanFrom done (.word (letters.reverse ++ seen)) rest := by
  induction letters generalizing seen with
  | nil => rfl
  | cons c letters ih =>
    have here := inside c List.mem_cons_self
    rw [List.cons_append, scanFrom, step?, if_pos here, List.reverse_cons, List.append_assoc]
    exact ih (fun d hd => inside d (List.mem_cons_of_mem _ hd)) _

theorem scanFrom_numeral_end {seen : List Char} (read : ofNumeral? seen.reverse = some token)
    (delimited : Delimited rest) :
    scanFrom done (.numeral seen) rest = scanFrom (token :: done) .between rest := by
  cases rest with
  | nil => simp [scanFrom, finish?, read]
  | cons c rest =>
    have outside := (delimited c rfl).2
    simp [scanFrom, step?, outside, read]

theorem scanFrom_word_end {seen : List Char} (read : ofWord? seen.reverse = some token)
    (delimited : Delimited rest) :
    scanFrom done (.word seen) rest = scanFrom (token :: done) .between rest := by
  cases rest with
  | nil => simp [scanFrom, finish?, read]
  | cons c rest =>
    have outside := (delimited c rfl).1
    simp [scanFrom, step?, outside, read]

theorem scanFrom_literal_word {c : Char} {letters : List Char} {value : Json}
    (start : start? done c = some (done, .word [c])) (inside : letters.all Char.isAlpha = true)
    (read : ofWord? (c :: letters) = some (.literal value)) (delimited : Delimited rest) :
    scanFrom done .between (c :: letters ++ rest) =
      scanFrom (.literal value :: done) .between rest := by
  rw [List.cons_append, scanFrom, step?, start]
  dsimp only
  rw [scanFrom_word (List.all_eq_true.1 inside)]
  exact scanFrom_word_end (by simpa using read) delimited

theorem start?_numeral {c : Char} (h : c.isDigit = true ∨ c = '-') :
    start? done c = some (done, .numeral [c]) := by
  rcases h with digit | rfl
  · have other (d : Char) (hd : d.isDigit = false) : c ≠ d := by
      rintro rfl
      rw [digit] at hd
      contradiction
    simp [start?, digit, other]
  · rfl

theorem digit_or_sign_of_mem_toString {n : Int} {c : Char} (h : c ∈ (toString n).toList) :
    c.isDigit = true ∨ c = '-' := by
  rw [LightClient.Numeral.toList_int] at h
  have digit : c ∈ Nat.toDigits 10 n.natAbs → c.isDigit = true :=
    Nat.isDigit_of_mem_toDigits (by decide) (by decide)
  split at h
  · exact (List.mem_cons.1 h).symm.imp_left digit
  · exact .inl (digit h)

theorem scanFrom_integer {n : Int} (word : IsWord n) (delimited : Delimited rest) :
    scanFrom done .between ((toString n).toList ++ rest) =
      scanFrom (.literal (.integer n) :: done) .between rest := by
  have chars : ∀ c ∈ (toString n).toList, c.isDigit = true ∨ c = '-' := fun c hc =>
    digit_or_sign_of_mem_toString hc
  have read : ofNumeral? (toString n).toList = some (.literal (.integer n)) := by
    rw [ofNumeral?, Numeral.ofChars?_toString, Option.map_some, Numeral.value_ofInt word]
  cases text : (toString n).toList with
  | nil =>
    rw [text] at read
    cases read
  | cons c cs =>
    rw [text] at chars read
    have inside : ∀ d ∈ cs, isNumeralChar d = true := fun d hd => by
      rcases chars d (List.mem_cons_of_mem _ hd) with h | h <;> simp [isNumeralChar, h]
    rw [List.cons_append, scanFrom, step?, start?_numeral (chars c List.mem_cons_self)]
    dsimp only
    rw [scanFrom_numeral inside]
    exact scanFrom_numeral_end (by simpa using read) delimited

theorem hexValue?_digitChar : ∀ d < 16, hexValue? (Nat.digitChar d) = some d := by decide

/-- Whatever stands for a character in a text is read as its code. -/
theorem scanFrom_renderChar (c : Char) (codes : List Nat) :
    scanFrom done (.text codes) (renderChar c ++ rest) =
      scanFrom done (.text (c.toNat :: codes)) rest := by
  unfold renderChar
  split
  · rename_i h
    rcases h with rfl | rfl <;> rfl
  split
  · rename_i h; subst h; rfl
  split
  · rename_i h; subst h; rfl
  split
  · rename_i h; subst h; rfl
  split
  · rename_i h; rw [h]; rfl
  split
  · rename_i h; rw [h]; rfl
  split
  · rename_i control
    have high := hexValue?_digitChar (c.toNat / 16) (by omega)
    have low := hexValue?_digitChar (c.toNat % 16) (by omega)
    have zero : hexValue? '0' = some 0 := rfl
    have code : 16 * (c.toNat / 16) + c.toNat % 16 = c.toNat := by omega
    simp [scanFrom, step?, high, low, zero, code]
  · rename_i plain _ _ _ _ _ printable
    rw [not_or] at plain
    simp [scanFrom, step?, plain, printable]

theorem scanFrom_text_body (chars : List Char) (codes : List Nat) :
    scanFrom done (.text codes) (chars.flatMap renderChar ++ rest) =
      scanFrom done (.text ((chars.map Char.toNat).reverse ++ codes)) rest := by
  induction chars generalizing codes with
  | nil => rfl
  | cons c chars ih =>
    rw [List.flatMap_cons, List.append_assoc, scanFrom_renderChar, ih, List.map_cons,
      List.reverse_cons, List.append_assoc]
    rfl

/-- Codes of characters hold no surrogates, so none are joined. -/
theorem joinPairs_toNat (chars after : List Char) :
    joinPairs after (chars.map Char.toNat) = some (chars.reverse ++ after) := by
  induction chars generalizing after with
  | nil => simp [joinPairs]
  | cons c chars ih =>
    have valid : c.toNat < 0xd800 ∨ 0xe000 ≤ c.toNat := by
      rcases c.valid with low | ⟨high, -⟩
      · exact .inl low
      · exact .inr high
    rw [List.map_cons, joinPairs.eq_def]
    dsimp only
    rw [if_pos valid, Char.ofNat_toNat, ih, List.reverse_cons, List.append_assoc]
    rfl

theorem ofCodes_toNat (text : String) :
    ofCodes (text.toList.map Char.toNat).reverse = .text (some text) := by
  rw [ofCodes, ← List.map_reverse, joinPairs_toNat, List.reverse_reverse, List.append_nil,
    Option.map_some, String.ofList_toList]

theorem scanFrom_renderText (text : String) :
    scanFrom done .between (renderText text ++ rest) =
      scanFrom (.text (some text) :: done) .between rest := by
  have opened : start? done '\x22' = some (done, .text []) := rfl
  rw [renderText, List.cons_append, List.cons_append, List.append_assoc, scanFrom, step?, opened]
  dsimp only
  rw [scanFrom_text_body, List.append_nil, ← ofCodes_toNat]
  rfl

end Token

end LightClient.Json
