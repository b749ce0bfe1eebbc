import Mathlib.Data.List.Basic

/-!
# Stacks that keep the levels they popped

A stack in whose levels the data of popped elements stays behind until a push uses the level again.
Only a push with no level in reserve asks for memory.
-/

/-- The levels from the bottom up; those from `height` on are above the top. -/
structure LevelStack (α : Type) where
  levels : List α
  height : Nat
  inside : height ≤ levels.length

namespace LevelStack

variable {α : Type}

def empty : LevelStack α := ⟨[], 0, Nat.le_refl 0⟩

/-- What is on the stack, from the bottom up. -/
def content (s : LevelStack α) : List α := s.levels.take s.height

/-- No level is in reserve. -/
def Full (s : LevelStack α) : Prop := s.levels.length = s.height

instance (s : LevelStack α) : Decidable s.Full := inferInstanceAs (Decidable (_ = _))

/-- `granted` tells whether the memory for a further level is there. -/
def push (granted : Bool) (a : α) (s : LevelStack α) : Option (LevelStack α) :=
  if h : s.height < s.levels.length then
    some ⟨s.levels.set s.height a, s.height + 1, by rw [List.length_set]; exact h⟩
  else if granted then
    some ⟨s.levels ++ [a], s.height + 1, by
      have := s.inside
      rw [List.length_append, List.length_singleton]
      omega⟩
  else none

lemma pred_height_lt {s : LevelStack α} (h : 0 < s.height) : s.height - 1 < s.levels.length := by
  have := s.inside
  omega

def pop (s : LevelStack α) : Option (α × LevelStack α) :=
  if h : 0 < s.height then
    some (s.levels.get ⟨s.height - 1, pred_height_lt h⟩,
      ⟨s.levels, s.height - 1, Nat.le_of_lt (pred_height_lt h)⟩)
  else none

variable {s s' : LevelStack α} {a : α} {granted : Bool}

lemma content_push (h : s.push granted a = some s') : s'.content = s.content ++ [a] := by
  have hinside := s.inside
  rw [push] at h
  split_ifs at h with hlt hg
  · obtain rfl := Option.some.inj h
    change (s.levels.set s.height a).take (s.height + 1) = s.levels.take s.height ++ [a]
    rw [List.take_succ_eq_append_getElem (by rwa [List.length_set]), List.getElem_set_self,
      List.take_set_of_le (Nat.le_refl _)]
  · obtain rfl := Option.some.inj h
    have hfull : s.levels.length = s.height := by omega
    change (s.levels ++ [a]).take (s.height + 1) = s.levels.take s.height ++ [a]
    rw [← hfull, List.take_length, List.take_of_length_le (by simp)]

lemma height_push (h : s.push granted a = some s') : s'.height = s.height + 1 := by
  rw [push] at h
  split_ifs at h
  · obtain rfl := Option.some.inj h
    rfl
  · obtain rfl := Option.some.inj h
    rfl

lemma length_push (h : s.push granted a = some s') :
    s'.levels.length = max s.levels.length (s.height + 1) := by
  have hinside := s.inside
  rw [push] at h
  split_ifs at h
  · obtain rfl := Option.some.inj h
    rw [List.length_set]
    omega
  · obtain rfl := Option.some.inj h
    rw [List.length_append, List.length_singleton]
    omega

lemma length_content (s : LevelStack α) : s.content.length = s.height := by
  have hinside := s.inside
  rw [content, List.length_take]
  omega

lemma push_eq_none : s.push granted a = none ↔ s.Full ∧ granted = false := by
  have hinside := s.inside
  rw [push, Full]
  split_ifs with hlt hg
  · constructor
    · intro h
      cases h
    · intro h
      omega
  · simp [hg]
  · simp only [true_iff]
    exact ⟨by omega, by simpa using hg⟩

lemma content_pop (h : s.pop = some (a, s')) : s.content = s'.content ++ [a] := by
  rw [pop] at h
  split_ifs at h with hpos
  obtain ⟨rfl, rfl⟩ := Prod.mk.inj (Option.some.inj h)
  have hsucc : s.height = s.height - 1 + 1 := by omega
  calc s.levels.take s.height = s.levels.take (s.height - 1 + 1) := by rw [← hsucc]
    _ = s.levels.take (s.height - 1) ++ [s.levels.get ⟨s.height - 1, pred_height_lt hpos⟩] :=
      List.take_succ_eq_append_getElem (pred_height_lt hpos)

lemma height_pop (h : s.pop = some (a, s')) :
    s.height = s'.height + 1 ∧ s'.levels = s.levels := by
  rw [pop] at h
  split_ifs at h with hpos
  obtain ⟨-, rfl⟩ := Prod.mk.inj (Option.some.inj h)
  exact ⟨by dsimp only; omega, rfl⟩

lemma content_of_pop_none (h : s.pop = none) : s.content = [] := by
  rw [pop] at h
  split_ifs at h with hpos
  have hzero : s.height = 0 := by omega
  rw [content, hzero, List.take_zero]

end LevelStack
