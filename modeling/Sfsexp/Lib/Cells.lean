import Mathlib.Data.List.TakeWhile

/-!
# Lists as blocks of cells

A block that is filled from its start: writing the cell behind the filled part makes the filled
part one longer.
-/

namespace Cells

variable {α : Type}

lemma take_succ_set {cells : List α} {n : Nat} (h : n < cells.length) (a : α) :
    (cells.set n a).take (n + 1) = cells.take n ++ [a] := by
  have hlen : (cells.take n).length = n := by simp; omega
  rw [List.set_eq_take_append_cons_drop, if_pos h, List.take_append, hlen,
    List.take_of_length_le (by omega)]
  simp

/-- Writing the last filled cell again replaces the last element of the filled part. -/
lemma take_succ_set_last {cells : List α} {n : Nat} (h : n < cells.length) (a : α) :
    (cells.set n a).take (n + 1) = (cells.take (n + 1)).dropLast ++ [a] := by
  rw [take_succ_set h, List.take_add_one, List.getElem?_eq_getElem h, Option.toList_some,
    List.dropLast_concat]

/-- Cells that are added behind the block do not change its filled part. -/
lemma take_append_of_le {cells more : List α} {n : Nat} (h : n ≤ cells.length) :
    (cells ++ more).take n = cells.take n := by
  rw [List.take_append, Nat.sub_eq_zero_of_le h]
  simp

/-- What stops a run of elements with the property `p`. -/
lemma dropWhile_cons_split {cells rest : List α} {p : α → Bool} {a : α}
    (h : cells.dropWhile p = a :: rest) : cells = cells.takeWhile p ++ a :: rest ∧ p a = false := by
  constructor
  · rw [← h, List.takeWhile_append_dropWhile]
  · have hhead := List.head_dropWhile_not p (l := cells) (by simp [h])
    simpa [h] using hhead

/-- A terminator written behind a filled part free of it ends the string there. -/
lemma takeWhile_set [DecidableEq α] {cells : List α} {n : Nat} {z : α} (h : n < cells.length)
    (hz : z ∉ cells.take n) :
    (cells.set n z).takeWhile (fun c => decide (c ≠ z)) = cells.take n := by
  rw [List.set_eq_take_append_cons_drop, if_pos h, List.takeWhile_append_of_pos]
  · simp
  · intro a ha
    have hne : a ≠ z := fun he => hz (by rwa [← he])
    simpa using hne

/-- A terminator ends the string where it was written, or earlier. -/
lemma length_takeWhile_set_le [DecidableEq α] {cells : List α} {n : Nat} {z : α}
    (h : n < cells.length) :
    ((cells.set n z).takeWhile (fun c => decide (c ≠ z))).length ≤ n := by
  have hfilled : (cells.take n).length = n := List.length_take_of_le (Nat.le_of_lt h)
  rw [List.set_eq_take_append_cons_drop, if_pos h, List.takeWhile_append]
  split_ifs
  · simp [hfilled]
  · calc ((cells.take n).takeWhile fun c => decide (c ≠ z)).length
        ≤ (cells.take n).length := (List.takeWhile_sublist _).length_le
      _ = n := hfilled

end Cells
