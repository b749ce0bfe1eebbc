import Mathlib.Data.List.Basic

/-!
# Numbers in decimal, as bytes

The digits of a number, the most significant first, each as the byte of its character.
-/

namespace Decimal

/-- The decimal digits of `n`. -/
def text (n : Nat) : List UInt8 := (Nat.toDigits 10 n).map fun d => d.toNat.toUInt8

/-- The digit `d` as a byte. -/
def byte (d : Nat) : UInt8 := (48 + d).toUInt8

lemma toNat_byte {d : Nat} (hd : d < 10) : (byte d).toNat = 48 + d := by
  rw [byte, Nat.toUInt8, UInt8.toNat_ofNat', Nat.mod_eq_of_lt (by omega)]

lemma text_of_lt {n : Nat} (h : n < 10) : text n = [byte n] := by
  rw [text, Nat.toDigits_of_lt_base h, List.map_singleton, Nat.toNat_digitChar_of_lt_ten h]
  rfl

/-- The last digit stands behind the others. -/
lemma text_of_le {n : Nat} (h : 10 ≤ n) : text n = text (n / 10) ++ [byte (n % 10)] := by
  have hlast : n % 10 < 10 := Nat.mod_lt _ (by decide)
  rw [text, Nat.toDigits_of_base_le (by decide) h, List.map_append, List.map_singleton,
    Nat.toNat_digitChar_of_lt_ten hlast]
  rfl

lemma text_ne_nil (n : Nat) : text n ≠ [] := by
  rw [text, Ne, List.map_eq_nil_iff]
  exact Nat.toDigits_ne_nil

/-- The text of a number consists of digits. -/
lemma digit_of_mem {n : Nat} {c : UInt8} (hc : c ∈ text n) : 48 ≤ c ∧ c ≤ 57 := by
  have hbyte : ∀ d < 10, 48 ≤ byte d ∧ byte d ≤ 57 := by decide
  induction n using Nat.strongRecOn with
  | ind n ih =>
    by_cases h : n < 10
    · rw [text_of_lt h, List.mem_singleton] at hc
      rw [hc]
      exact hbyte n h
    · rw [text_of_le (by omega), List.mem_append, List.mem_singleton] at hc
      rcases hc with hc | rfl
      · exact ih (n / 10) (by omega) hc
      · exact hbyte _ (Nat.mod_lt _ (by decide))

end Decimal
