import Mathlib.Tactic.SplitIfs

/-! # Letter case

Only the letters from `a` to `z` have two cases. Texts that agree in small letters agree in
capitals, too.
-/

namespace BbjAnalysis.LetterCase

theorem toNat_toLower (c : Char) :
    c.toLower.toNat = if 65 ≤ c.toNat ∧ c.toNat ≤ 90 then c.toNat + 32 else c.toNat := by
  have range : (c.val ≥ 'A'.val ∧ c.val ≤ 'Z'.val) ↔ 65 ≤ c.toNat ∧ c.toNat ≤ 90 := by
    simp only [UInt32.le_iff_toNat_le, ge_iff_le]
    rfl
  unfold Char.toLower
  split
  · next capital =>
    rw [if_pos (range.mp capital)]
    have last : c.val.toNat ≤ 90 := (range.mp capital).2
    have distance : ('a'.val - 'A'.val).toNat = 32 := by decide
    show (c.val + ('a'.val - 'A'.val)).toNat = c.val.toNat + 32
    rw [UInt32.toNat_add, distance, Nat.mod_eq_of_lt (by omega)]
  · next other => rw [if_neg (fun h => other (range.mpr h))]

theorem toNat_toUpper (c : Char) :
    c.toUpper.toNat = if 97 ≤ c.toNat ∧ c.toNat ≤ 122 then c.toNat - 32 else c.toNat := by
  have range : ('a'.val ≤ c.val ∧ c.val ≤ 'z'.val) ↔ 97 ≤ c.toNat ∧ c.toNat ≤ 122 := by
    simp only [UInt32.le_iff_toNat_le]
    rfl
  unfold Char.toUpper
  split
  · next small =>
    rw [if_pos (range.mp small)]
    have bounds : 97 ≤ c.val.toNat ∧ c.val.toNat ≤ 122 := range.mp small
    -- the distance is negative, and wraps around
    have distance : ('A'.val - 'a'.val).toNat = 2 ^ 32 - 32 := by decide
    show (c.val + ('A'.val - 'a'.val)).toNat = c.val.toNat - 32
    rw [UInt32.toNat_add]
    omega
  · next other => rw [if_neg (fun h => other (range.mpr h))]

theorem toLower_toLower (c : Char) : c.toLower.toLower = c.toLower := by
  rw [← Char.toNat_inj, toNat_toLower, toNat_toLower]
  split_ifs <;> omega

theorem toUpper_toLower (c : Char) : c.toLower.toUpper = c.toUpper := by
  rw [← Char.toNat_inj, toNat_toUpper, toNat_toUpper, toNat_toLower]
  split_ifs <;> omega

/-- The capitals of a text depend on its small letters only. -/
theorem text_toUpper_toLower (text : String) : text.toLower.toUpper = text.toUpper :=
  calc (text.map Char.toLower).map Char.toUpper
    _ = text.map (Char.toUpper ∘ Char.toLower) := String.map_map
    _ = text.map Char.toUpper := congrArg (String.map · text) (funext toUpper_toLower)

/-- A quote is no letter. -/
theorem eq_quote_of_toLower {c : Char} (quote : c.toLower = '"') : c = '"' := by
  have code : '"'.toNat = 34 := rfl
  rw [← Char.toNat_inj, toNat_toLower] at quote
  rw [← Char.toNat_inj]
  split_ifs at quote <;> omega

end BbjAnalysis.LetterCase
