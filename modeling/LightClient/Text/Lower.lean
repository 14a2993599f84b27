import LightClient.Text.Blank

/-!
# Lower case

Only the letters `A` to `Z` have a lower case here; every other character is its own.
-/
namespace LightClient.Text

/-- The text with `A` to `Z` replaced by `a` to `z`. -/
def lower (text : List Char) : List Char := text.map Char.toLower

/-- Whether `part` occurs in the text as a run of neighbouring characters. -/
def contains (part : List Char) : List Char → Bool
  | [] => part.isEmpty
  | c :: rest => part.isPrefixOf (c :: rest) || contains part rest

theorem toNat_toLower (c : Char) :
    c.toLower.toNat = if 65 ≤ c.toNat ∧ c.toNat ≤ 90 then c.toNat + 32 else c.toNat := by
  have bounds : (c.val ≥ 'A'.val ∧ c.val ≤ 'Z'.val) ↔ (65 ≤ c.toNat ∧ c.toNat ≤ 90) := by
    simp only [ge_iff_le, UInt32.le_iff_toNat_le, Char.toNat]
    exact Iff.rfl
  unfold Char.toLower
  split
  · rename_i h
    rw [if_pos (bounds.1 h)]
    have upper := bounds.1 h
    simp only [Char.toNat, UInt32.toNat_add] at upper ⊢
    have shift : ('a'.val - 'A'.val).toNat = 32 := by decide
    omega
  · rename_i h
    rw [if_neg fun k => h (bounds.2 k)]

theorem toLower_toLower (c : Char) : c.toLower.toLower = c.toLower := by
  apply Char.toNat_inj.1
  rw [toNat_toLower c.toLower, toNat_toLower c]
  by_cases h : 65 ≤ c.toNat ∧ c.toNat ≤ 90
  · rw [if_pos h, if_neg (by omega)]
  · rw [if_neg h, if_neg h]

theorem isBlank_toLower (c : Char) : isBlank c.toLower = isBlank c := by
  simp only [isBlank, blankRanges, List.any_cons, List.any_nil, toNat_toLower]
  split
  · rename_i h
    rw [Bool.eq_iff_iff]
    simp
    omega
  · rfl

theorem toLower_eq_slash {c : Char} : c.toLower = '/' ↔ c = '/' := by
  simp only [← Char.toNat_inj, toNat_toLower]
  have slash : '/'.toNat = 47 := by decide
  rw [slash]
  split <;> omega

theorem lower_lower (text : List Char) : lower (lower text) = lower text := by
  unfold lower
  rw [List.map_map]
  exact List.map_congr_left fun c _ => toLower_toLower c

end LightClient.Text
