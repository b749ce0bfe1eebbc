import Sfsexp.Proofs.Buffer

/-!
# The stack of half-built lists

The children read so far of the lists that are open, the innermost first, determine the levels of
the stack: each list sits as the last element, still without children, on the level below its own.
-/

namespace Sfsexp.Proofs

open Sfsexp

/-- The levels of the stack while lists with the children `L` are open. -/
def openLevels : List (List Sexp) → List (List Sexp)
  | [] => []
  | T :: Ls => T :: (Ls.map (· ++ [.list []]) ++ [[.list []]])

structure StackOk (s : Faststack) (L : List (List Sexp)) : Prop where
  levels : s.levels = openLevels L
  height : s.height = s.levels.length

lemma stackOk_makeStack : StackOk makeStack [] := ⟨rfl, rfl⟩

@[simp] lemma setLast_concat (p q sx : List Sexp) :
    setLast (p ++ [.list q]) sx = some (p ++ [.list sx]) := by
  induction p with
  | nil => rfl
  | cons x p ih =>
    cases p with
    | nil => simp [setLast]
    | cons y p =>
      simp only [List.cons_append] at ih ⊢
      simp [setLast, ih]

section Operations

variable {env : Env} {l : Locals} {T T' : List Sexp} {L Ls : List (List Sexp)}

lemma link_empty (hs : StackOk l.stack []) : link l = none := by
  rw [link, hs.levels]
  rfl

lemma link_open (hs : StackOk l.stack (T :: Ls)) :
    ∃ s, link l = some { l with stack := s } ∧ StackOk s ((T ++ l.sx) :: Ls) := by
  refine ⟨⟨openLevels ((T ++ l.sx) :: Ls), l.stack.spare, l.stack.height⟩, ?_, rfl, ?_⟩
  · rw [link, hs.levels]
    rfl
  · rw [hs.height, hs.levels]
    simp [openLevels]

/-- Open paren: a list without children is open. -/
lemma state2_ok (h : env.Succeeds) (hs : StackOk l.stack L) :
    ∃ s k, state2 env l = .ok { l with depth := l.depth + 1, elts := l.elts + 1, sx := [.list []]
                                       stack := s, state := .s1, allocs := k } ∧
      StackOk s ([] :: L) := by
  have hheight := hs.height
  have hlevels := hs.levels
  cases L with
  | nil =>
    have hzero : l.stack.height = 0 := by
      rw [hheight, hlevels]
      rfl
    have hrun : ∃ k, state2 env l = .ok { l with
        depth := l.depth + 1, elts := l.elts + 1, sx := [.list []]
        stack := ⟨openLevels [[]], l.stack.spare - 1 - 1, 2⟩, state := .s1, allocs := k } := by
      apply Exists.intro
      simp only [state2, need_ok h, ok_bind, attachList, hzero, push_ok h, hlevels]
      rfl
    obtain ⟨k, hk⟩ := hrun
    exact ⟨_, k, hk, rfl, rfl⟩
  | cons T Ls =>
    have hpos : l.stack.height = Ls.length + 2 := by
      rw [hheight, hlevels]
      simp [openLevels]
    have hfull : ¬ Ls.length + 2 < 1 := by omega
    have hrun : ∃ k, state2 env l = .ok { l with
        depth := l.depth + 1, elts := l.elts + 1, sx := [.list []]
        stack := ⟨openLevels ([] :: T :: Ls), l.stack.spare - 1, Ls.length + 3⟩
        state := .s1, allocs := k } := by
      apply Exists.intro
      simp only [state2, need_ok h, ok_bind, attachList, hpos, if_neg hfull, link, hlevels,
        openLevels, push_ok h]
      rfl
    obtain ⟨k, hk⟩ := hrun
    exact ⟨_, k, hk, rfl, by simp [openLevels]⟩

/-- A closing paren with no list open. -/
lemma state3_bad (hd : l.depth = 0) :
    state3 l = .error ({ l with esc := false, state := .s1 }.save .badForm []) := by
  rw [state3, if_pos hd]

/-- A closing paren of an inner list. -/
lemma state3_inner (hs : StackOk l.stack (T :: T' :: Ls)) (hd : l.depth = Ls.length + 2) :
    ∃ s, state3 l = .ok { l with t := l.t + 1, depth := Ls.length + 1, stack := s, sx := T
                                 state := .s1
                                 events := l.events ++ heard (·.endSexpr) .endSexpr
                                   l.eventHandlers } ∧
      StackOk s ((T' ++ [.list T]) :: Ls) := by
  refine ⟨⟨openLevels ((T' ++ [.list T]) :: Ls), l.stack.spare + 1, Ls.length + 2⟩, ?_, rfl, ?_⟩
  · have hheight : l.stack.height = Ls.length + 3 := by
      rw [hs.height, hs.levels]
      simp [openLevels]
    rw [state3, if_neg (by omega), closeLevel]
    simp only [Faststack.pop, hs.levels, openLevels, hheight, List.map_cons, List.cons_append,
      setLast_concat, ok_bind, fire_eq, hd]
    rfl
  · simp [openLevels]

/-- The closing paren of the outermost list. -/
lemma state3_outer (hs : StackOk l.stack [T]) (hd : l.depth = 1) :
    ∃ s, state3 l = .error ({ l with t := l.t + 1, depth := 0, stack := s, sx := [.list T]
                                     esc := false, state := .s1
                                     events := l.events ++ heard (·.endSexpr) .endSexpr
                                       l.eventHandlers }.save .ok [.list T]) ∧
      StackOk s [] := by
  refine ⟨⟨[], l.stack.spare + 2, 0⟩, ?_, rfl, rfl⟩
  have hheight : l.stack.height = 2 := by
    rw [hs.height, hs.levels]
    rfl
  rw [state3, if_neg (by omega), closeLevel]
  have hlast : setLast [.list []] T = some [.list T] := rfl
  simp only [Faststack.pop, hs.levels, openLevels, hheight, List.map_nil, List.nil_append, hlast,
    ok_bind, fire_eq, hd, Nat.sub_self, if_true, returnTree, popAll]

end Operations

end Sfsexp.Proofs
