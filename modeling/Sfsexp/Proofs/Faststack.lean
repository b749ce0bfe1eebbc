import Mathlib.Data.List.Nodup
import Sfsexp.Lib.LevelStack
import Sfsexp.Spec.Faststack

/-!
# The levels in memory

The levels stand in memory in the order they were allocated in, each linked to its neighbours, so what
they hold is a list of data and a height: the heap of `faststack.c` keeps a stack that keeps its
popped levels, and this one a plain list.
-/

namespace Sfsexp.Proofs

open Sfsexp Spec

section Levels

variable {δ : Type} {ds : List δ} {d : δ} {a : Nat}

/-- The levels with the data `ds`, from the bottom up. -/
def linkedLevels (ds : List δ) : List (StackLvl δ) :=
  ds.mapIdx fun i d =>
    ⟨if i + 1 < ds.length then some (i + 1) else none, if i = 0 then none else some (i - 1), d⟩

@[simp] lemma linkedLevels_length (ds : List δ) : (linkedLevels ds).length = ds.length := by
  rw [linkedLevels, List.length_mapIdx]

lemma linkedLevels_get (h : a < ds.length) :
    (linkedLevels ds)[a]? =
      some ⟨if a + 1 < ds.length then some (a + 1) else none, if a = 0 then none else some (a - 1),
        ds.get ⟨a, h⟩⟩ := by
  rw [linkedLevels, List.getElem?_mapIdx, List.getElem?_eq_getElem h]
  rfl

lemma linkedLevels_end (h : ds.length ≤ a) : (linkedLevels ds)[a]? = none :=
  List.getElem?_eq_none (by rwa [linkedLevels_length])

/-- A level is used again. -/
lemma linkedLevels_set (h : a < ds.length) {lvl : StackLvl δ} (hlvl : (linkedLevels ds)[a]? = some lvl) :
    Function.update (fun b => (linkedLevels ds)[b]?) a (some { lvl with data := d }) =
      fun b => (linkedLevels (ds.set a d))[b]? := by
  rw [linkedLevels_get h] at hlvl
  obtain rfl := Option.some.inj hlvl
  funext b
  by_cases hb : b = a
  · subst hb
    rw [Function.update_self, linkedLevels_get (by rwa [List.length_set])]
    simp
  · rw [Function.update_of_ne hb]
    by_cases hlt : b < ds.length
    · rw [linkedLevels_get hlt, linkedLevels_get (by rwa [List.length_set])]
      simp [Ne.symm hb]
    · rw [linkedLevels_end (by omega), linkedLevels_end (by rw [List.length_set]; omega)]

/-- The first level is made. -/
lemma linkedLevels_first (h : ds = []) :
    Function.update (fun b => (linkedLevels ds)[b]?) 0 (some ⟨none, none, d⟩) =
      fun b => (linkedLevels (ds ++ [d]))[b]? := by
  subst h
  funext b
  by_cases hb : b = 0
  · subst hb
    rfl
  · rw [Function.update_of_ne hb, linkedLevels_end (Nat.zero_le _), linkedLevels_end]
    simp
    omega

/-- A level is made above the last one. -/
lemma linkedLevels_concat {n : Nat} (h : a + 1 = ds.length) (hn : n = ds.length) {lvl : StackLvl δ}
    (hlvl : (linkedLevels ds)[a]? = some lvl) :
    Function.update (Function.update (fun b => (linkedLevels ds)[b]?) a
        (some { lvl with above := some n })) n (some ⟨none, some a, d⟩) =
      fun b => (linkedLevels (ds ++ [d]))[b]? := by
  subst hn
  rw [linkedLevels_get (by omega)] at hlvl
  obtain rfl := Option.some.inj hlvl
  have hlen : (ds ++ [d]).length = ds.length + 1 := by simp
  funext b
  by_cases hb : b = ds.length
  · subst hb
    rw [Function.update_self, linkedLevels_get (by omega)]
    have hpos : ds.length ≠ 0 := by omega
    have hpred : ds.length - 1 = a := by omega
    simp [hpos, hpred]
  rw [Function.update_of_ne hb]
  by_cases hba : b = a
  · subst hba
    have hmore : b + 1 < (ds ++ [d]).length := by omega
    rw [Function.update_self, linkedLevels_get (by omega), if_pos hmore]
    simp [← h]
  rw [Function.update_of_ne hba]
  by_cases hlt : b < ds.length
  · have hmore : b + 1 < ds.length := by omega
    have hmore' : b + 1 < (ds ++ [d]).length := by omega
    rw [linkedLevels_get hlt, linkedLevels_get (by omega), if_pos hmore, if_pos hmore']
    simp [hlt]
  · rw [linkedLevels_end (by omega), linkedLevels_end (by omega)]

end Levels

section Stack

variable {δ : Type} {s s' : StackHeap δ} {t t' : LevelStack δ} {d : δ} {granted : Bool}

/-- The levels in memory carry the stack `t`. -/
structure Carries (s : StackHeap δ) (t : LevelStack δ) : Prop where
  heap : s.heap = fun a => (linkedLevels t.levels)[a]?
  made : s.made = t.levels.length
  bottom : s.bottom = if t.levels.length = 0 then none else some 0
  top : s.top = if t.height = 0 then none else some (t.height - 1)
  height : s.height = t.height

lemma Carries.get (h : Carries s t) {a : Nat} (ha : a < t.levels.length) :
    s.heap a = some ⟨if a + 1 < t.levels.length then some (a + 1) else none,
      if a = 0 then none else some (a - 1), t.levels.get ⟨a, ha⟩⟩ := by
  rw [h.heap]
  exact linkedLevels_get ha

lemma carries_makeStack (errno : ErrCode) : Carries (.makeStack errno : StackHeap δ) .empty :=
  ⟨rfl, rfl, rfl, rfl, rfl⟩

/-- The push that is refused finds no level in reserve, and changes nothing. -/
lemma push_refused (h : Carries s t) (ht : t.push granted d = none) :
    s.push granted d = some (false, { s with errno := .memory }) := by
  obtain ⟨hfull, rfl⟩ := LevelStack.push_eq_none.mp ht
  have htop := h.top
  have hbottom := h.bottom
  rw [LevelStack.Full] at hfull
  rw [StackHeap.push]
  by_cases hzero : t.height = 0
  · rw [if_pos hzero] at htop
    rw [if_pos (hfull.trans hzero)] at hbottom
    simp [htop, hbottom]
  · rw [if_neg hzero] at htop
    have hlt : t.height - 1 < t.levels.length := by omega
    have hget := linkedLevels_get hlt
    have hend : ¬ t.height - 1 + 1 < t.levels.length := by omega
    rw [if_neg hend] at hget
    have hsame : Function.update s.heap (t.height - 1)
        ((linkedLevels t.levels)[t.height - 1]?) = s.heap := by
      rw [h.heap]
      exact Function.update_eq_self _ _
    rw [hget] at hsame
    simp only [htop, h.heap, hget, Option.bind_eq_bind, Option.bind_some, StackHeap.write]
    rw [← h.heap, hsame]
    rfl

/-- The level above the top is used again. -/
lemma carries_reused (h : Carries s t) (hlt : t.height < t.levels.length) {lvl : StackLvl δ}
    (hlvl : s.heap t.height = some lvl)
    (hinside : t.height + 1 ≤ (t.levels.set t.height d).length) :
    Carries { { s with top := some t.height }.write t.height { lvl with data := d } with
      height := s.height + 1 } ⟨t.levels.set t.height d, t.height + 1, hinside⟩ := by
  rw [h.heap] at hlvl
  refine ⟨?_, ?_, ?_, rfl, ?_⟩
  · change Function.update s.heap t.height (some { lvl with data := d }) = _
    rw [h.heap]
    exact linkedLevels_set hlt hlvl
  · rw [List.length_set]
    exact h.made
  · rw [List.length_set]
    exact h.bottom
  · rw [Int.natCast_succ, ← h.height]

/-- The push that finds a level in reserve. -/
lemma push_reused (granted : Bool) (h : Carries s t) (hlt : t.height < t.levels.length) :
    ∃ s' : StackHeap δ, s.push granted d = s'.heighten ∧ s'.height = s.height ∧
      ∀ hinside, Carries { s' with height := s'.height + 1 }
        ⟨t.levels.set t.height d, t.height + 1, hinside⟩ := by
  have htop := h.top
  have hbottom := h.bottom
  obtain ⟨lvl, hlvl⟩ : ∃ lvl, s.heap t.height = some lvl := ⟨_, h.get hlt⟩
  refine ⟨{ s with top := some t.height }.write t.height { lvl with data := d }, ?_, rfl,
    carries_reused h hlt hlvl⟩
  rw [StackHeap.push]
  by_cases hzero : t.height = 0
  · rw [if_pos hzero] at htop
    rw [if_neg (by omega)] at hbottom
    rw [hzero] at hlvl ⊢
    simp only [htop, hbottom, hlvl, Option.bind_eq_bind, Option.bind_some]
  · rw [if_neg hzero] at htop
    have hbelow := h.get (show t.height - 1 < t.levels.length by omega)
    have hmore : t.height - 1 + 1 < t.levels.length := by omega
    have hsucc : t.height - 1 + 1 = t.height := by omega
    rw [if_pos hmore, hsucc] at hbelow
    simp only [htop, hbelow, hlvl, Option.bind_eq_bind, Option.bind_some]

/-- The push that finds all levels in use and gets memory for another. -/
lemma push_allocated (h : Carries s t) (hfull : t.levels.length = t.height) :
    ∃ s' : StackHeap δ, s.push true d = s'.heighten ∧ s'.height = s.height ∧
      ∀ hinside, Carries { s' with height := s'.height + 1 }
        ⟨t.levels ++ [d], t.height + 1, hinside⟩ := by
  have htop := h.top
  have hbottom := h.bottom
  have hmade := h.made
  have hlen : (t.levels ++ [d]).length = t.levels.length + 1 := by simp
  have hheight : s.height + 1 = ((t.height + 1 : Nat) : Int) := by rw [Int.natCast_succ, ← h.height]
  rw [StackHeap.push]
  by_cases hzero : t.height = 0
  · rw [if_pos hzero] at htop
    rw [if_pos (hfull.trans hzero)] at hbottom
    simp only [htop, hbottom, if_true]
    refine ⟨_, rfl, rfl, fun _ => ⟨?_, ?_, ?_, ?_, hheight⟩⟩
    · have hnil : t.levels = [] := List.eq_nil_of_length_eq_zero (hfull.trans hzero)
      change Function.update s.heap s.made (some ⟨none, none, d⟩) = _
      rw [h.heap, hmade, hfull.trans hzero]
      exact linkedLevels_first hnil
    · change s.made + 1 = (t.levels ++ [d]).length
      rw [hlen, hmade]
    · rw [hlen, if_neg (Nat.succ_ne_zero _), hmade, hfull, hzero]
    · change some s.made = some (t.height + 1 - 1)
      rw [hmade, hfull, Nat.add_sub_cancel]
  · rw [if_neg hzero] at htop
    have hlt : t.height - 1 < t.levels.length := by omega
    have hlast : t.height - 1 + 1 = t.levels.length := by omega
    obtain ⟨lvl, hlvl, habove⟩ : ∃ lvl, s.heap (t.height - 1) = some lvl ∧ lvl.above = none :=
      ⟨_, h.get hlt, if_neg (by omega)⟩
    simp only [htop, hlvl, habove, if_true, Option.bind_eq_bind, Option.bind_some]
    refine ⟨_, rfl, rfl, fun _ => ⟨?_, ?_, ?_, ?_, hheight⟩⟩
    · rw [h.heap] at hlvl
      have hconcat := linkedLevels_concat (d := d) hlast hmade hlvl
      rw [← h.heap] at hconcat
      exact hconcat
    · change s.made + 1 = (t.levels ++ [d]).length
      rw [hlen, hmade]
    · rw [hlen, if_neg (Nat.succ_ne_zero _)]
      rw [if_neg (by omega)] at hbottom
      exact hbottom
    · change some s.made = some (t.height + 1 - 1)
      rw [hmade, hfull, Nat.add_sub_cancel]

/-- A push that is not refused raises the height of a stack with the data on top. -/
lemma push_done (h : Carries s t) (ht : t.push granted d = some t') :
    ∃ s' : StackHeap δ, s.push granted d = s'.heighten ∧ s'.height = s.height ∧
      Carries { s' with height := s'.height + 1 } t' := by
  have hinside := t.inside
  rw [LevelStack.push] at ht
  split_ifs at ht with hlt hgranted
  · obtain rfl := Option.some.inj ht
    obtain ⟨s', hpush, hheight, hcarries⟩ := push_reused (d := d) granted h hlt
    exact ⟨s', hpush, hheight, hcarries _⟩
  · obtain rfl := Option.some.inj ht
    obtain ⟨s', hpush, hheight, hcarries⟩ := push_allocated (d := d) h (by omega)
    exact ⟨s', hgranted ▸ hpush, hheight, hcarries _⟩

lemma pop_empty (h : Carries s t) (ht : t.pop = none) : s.pop = some (none, s) := by
  have htop := h.top
  rw [LevelStack.pop] at ht
  split_ifs at ht with hpos
  rw [if_pos (by omega)] at htop
  rw [StackHeap.pop, htop]

/-- The level that is popped holds the data on top, and goes on to hold it. -/
lemma pop_done (h : Carries s t) (ht : t.pop = some (d, t')) :
    ∃ a s' lvl, s.pop = some (some a, s') ∧ Carries s' t' ∧ s'.heap a = some lvl ∧ lvl.data = d := by
  have htop := h.top
  have hheight := h.height
  rw [LevelStack.pop] at ht
  split_ifs at ht with hpos
  obtain ⟨rfl, rfl⟩ := Prod.mk.inj (Option.some.inj ht)
  have hlt := LevelStack.pred_height_lt hpos
  have hlvl := h.get hlt
  have hpos' : 0 < s.height := by omega
  rw [if_neg (by omega)] at htop
  obtain ⟨s', hs'⟩ : ∃ s' : StackHeap δ, s' = { s with
    top := if t.height - 1 = 0 then none else some (t.height - 1 - 1), height := s.height - 1 } :=
    ⟨_, rfl⟩
  have hpop : s.pop = some (some (t.height - 1), s') := by
    rw [StackHeap.pop, htop, hs']
    dsimp only
    rw [if_pos hpos', hlvl]
    rfl
  refine ⟨t.height - 1, s', _, hpop, ?_, by rw [hs']; exact hlvl, rfl⟩
  rw [hs']
  refine ⟨h.heap, h.made, h.bottom, rfl, ?_⟩
  dsimp only
  omega

lemma Carries.links (h : Carries s t) {a : Nat} (ha : a < s.made) :
    ∃ d, s.heap a = some ⟨if a + 1 < s.made then some (a + 1) else none,
      if a = 0 then none else some (a - 1), d⟩ := by
  rw [h.made] at ha ⊢
  exact ⟨_, h.get ha⟩

/-- The levels are one chain. -/
lemma levelChain_of_carries (h : Carries s t) : LevelChain s (List.range s.made) := by
  have hmade := h.made
  have hinside := t.inside
  have hheight := h.height
  refine ⟨List.nodup_range, fun a => List.mem_range, ?_, ?_, ⟨by omega, ?_⟩, ?_⟩
  · have hchain : ∀ n a, a + n = s.made →
        Chain.Linked (fun a => (s.heap a).bind (·.above)) (if a < s.made then some a else none)
          (List.range' a n) := by
      intro n
      induction n with
      | zero => exact fun a ha => if_neg (by omega)
      | succ n ih =>
        intro a ha
        rw [if_pos (by omega), List.range'_succ]
        refine ⟨rfl, ?_⟩
        obtain ⟨d, hget⟩ := h.links (a := a) (by omega)
        dsimp only
        rw [hget, Option.bind_some]
        exact ih (a + 1) (by omega)
    have hbottom : s.bottom = if 0 < s.made then some 0 else none := by
      rw [h.bottom, ← hmade]
      split_ifs <;> first | rfl | omega
    rw [hbottom, List.range_eq_range']
    exact hchain s.made 0 (Nat.zero_add _)
  · have hchain : ∀ n, n ≤ s.made →
        Chain.Linked (fun a => (s.heap a).bind (·.below)) (if n = 0 then none else some (n - 1))
          (List.range n).reverse := by
      intro n
      induction n with
      | zero => exact fun _ => rfl
      | succ n ih =>
        intro hn
        rw [if_neg (Nat.succ_ne_zero n), List.range_succ, List.reverse_concat]
        refine ⟨rfl, ?_⟩
        obtain ⟨d, hget⟩ := h.links (a := n) (by omega)
        dsimp only
        rw [hget, Option.bind_some]
        exact ih (by omega)
    have hlast : (List.range s.made).getLast? = if s.made = 0 then none else some (s.made - 1) :=
      List.getLast?_range
    rw [hlast]
    exact hchain s.made (Nat.le_refl _)
  · rw [List.length_range]
    omega
  · have hnat : s.height.toNat = t.height := by omega
    rw [hnat, List.take_range, Nat.min_eq_left (by omega), List.getLast?_range, h.top]

/-- The loop that goes up ends at the last level. -/
lemma climb_run (h : Carries s t) {a n : Nat} (ha : a < s.made) (hn : s.made ≤ a + n) :
    Loop.run (StackHeap.climb s.heap) n a = some (some (s.made - 1)) := by
  induction n generalizing a with
  | zero => omega
  | succ n ih =>
    obtain ⟨d, hget⟩ := h.links ha
    by_cases hlast : a + 1 < s.made
    · rw [if_pos hlast] at hget
      have hstep : StackHeap.climb s.heap a = .ok (a + 1) := by
        rw [StackHeap.climb, hget]
      rw [Loop.run_succ_of_next hstep]
      exact ih hlast (by omega)
    · rw [if_neg hlast] at hget
      have hstep : StackHeap.climb s.heap a = .error (some a) := by
        rw [StackHeap.climb, hget]
      rw [Loop.run_succ_of_exit hstep]
      have heq : a = s.made - 1 := by omega
      rw [← heq]

/-- The levels from `a` on were freed from the top down. -/
def freedFrom (s : StackHeap δ) (a : Nat) : StackHeap.Descent δ where
  level := a - 1
  heap := fun b => if b < a then s.heap b else none
  freed := (List.range' a (s.made - a)).reverse.map .level

lemma freedFrom_free (h : Carries s t) {a b : Nat} (ha : a < s.made) :
    { freedFrom s (a + 1) with level := b }.free (some a) =
      some { freedFrom s a with level := b } := by
  obtain ⟨d, hget⟩ := h.links ha
  have hheap : (freedFrom s (a + 1)).heap a = s.heap a := if_pos (Nat.lt_succ_self a)
  rw [StackHeap.Descent.free, hheap, hget, Option.map_some]
  have hcount : s.made - a = s.made - (a + 1) + 1 := by omega
  have hupdate : Function.update (freedFrom s (a + 1)).heap a none = (freedFrom s a).heap := by
    funext x
    by_cases hx : x = a
    · subst hx
      rw [Function.update_self]
      exact (if_neg (Nat.lt_irrefl x)).symm
    · rw [Function.update_of_ne hx]
      have hiff : x < a + 1 ↔ x < a := by omega
      simp only [freedFrom, hiff]
  have hfreed : (freedFrom s (a + 1)).freed ++ [.level a] = (freedFrom s a).freed := by
    simp only [freedFrom, hcount, List.range'_succ, List.reverse_cons, List.map_append, List.map_cons,
      List.map_nil]
  rw [hupdate, hfreed]

/-- The loop that goes down frees the levels above it and ends at the bottom. -/
lemma descend_run (h : Carries s t) {a n : Nat} (ha : a < s.made) (hn : a < n) :
    Loop.run StackHeap.descend n (freedFrom s (a + 1)) = some (some (freedFrom s 1)) := by
  induction n generalizing a with
  | zero => omega
  | succ n ih =>
    obtain ⟨d, hget⟩ := h.links ha
    have hheap : ∀ b ≤ a, (freedFrom s (a + 1)).heap b = s.heap b :=
      fun b hb => if_pos (Nat.lt_succ_of_le hb)
    have hlevel : (freedFrom s (a + 1)).level = a := rfl
    cases a with
    | zero =>
      have hstep : StackHeap.descend (freedFrom s 1) = .error (some (freedFrom s 1)) := by
        rw [StackHeap.descend, hlevel, hheap 0 (Nat.le_refl 0), hget]
        rfl
      exact Loop.run_succ_of_exit hstep n
    | succ b =>
      obtain ⟨d', hbelow⟩ := h.links (a := b) (by omega)
      rw [if_pos ha] at hbelow
      have hfree := freedFrom_free h ha (b := b)
      have hstep : StackHeap.descend (freedFrom s (b + 1 + 1)) = .ok (freedFrom s (b + 1)) := by
        rw [StackHeap.descend, hlevel, hheap (b + 1) (Nat.le_refl _), hget]
        dsimp only
        rw [if_neg (Nat.succ_ne_zero b), Nat.add_sub_cancel]
        dsimp only
        rw [hheap b (by omega), hbelow]
        dsimp only
        rw [hfree]
        rfl
      rw [Loop.run_succ_of_next hstep]
      exact ih (by omega) (by omega)

/-- Everything is freed, the levels from the top down and then the stack. -/
lemma destroyStack_released (h : Carries s t) :
    s.destroyStack = .released ((List.range s.made).reverse.map .level ++ [.wrapper]) := by
  have hbottom := h.bottom
  rw [← h.made] at hbottom
  rw [StackHeap.destroyStack]
  by_cases hzero : s.made = 0
  · rw [if_pos hzero] at hbottom
    rw [hbottom, hzero]
    rfl
  · rw [if_neg hzero] at hbottom
    obtain ⟨a, ha⟩ : ∃ a, s.made = a + 1 := ⟨s.made - 1, by omega⟩
    have hclimb := climb_run h (a := 0) (n := s.made + 1) (by omega) (by omega)
    have hheap : (fun b => if b < s.made then s.heap b else none) = s.heap := by
      funext b
      split_ifs with hb
      · rfl
      · rw [h.heap]
        exact (linkedLevels_end (by rw [← h.made]; omega)).symm
    have hstart : freedFrom s (a + 1) = ⟨s.made - 1, s.heap, []⟩ := by
      rw [freedFrom, ← ha, hheap, Nat.sub_self]
      rfl
    have hdescend := descend_run h (a := a) (n := s.made + 1) (by omega) (by omega)
    have hfree : (freedFrom s 1).free (some (freedFrom s 1).level) =
        some { freedFrom s 0 with level := 0 } := freedFrom_free h (a := 0) (b := 0) (by omega)
    rw [hbottom]
    dsimp only
    rw [hclimb]
    dsimp only
    rw [← hstart, hdescend]
    dsimp only
    rw [hfree, List.range_eq_range']
    rfl

/-- A push that raises the height stays in the range of `int`; a push may find no memory there. -/
def Fits (op : StackOp δ) (s : StackHeap δ) : Prop :=
  match op with
  | .push granted _ => s.height < intMax ∨ s.height = s.made ∧ granted = false
  | .pop => True

lemma step_push_refused (h : Carries s t) (ht : t.push granted d = none) :
    s.step (.push granted d) = some (.null, { s with errno := .memory }) := by
  rw [StackHeap.step, push_refused h ht]
  rfl

lemma step_push_done (h : Carries s t) (ht : t.push granted d = some t') :
    ∃ s', Carries s' t' ∧
      s.step (.push granted d) = if s.height < intMax then some (.stack, s') else none := by
  obtain ⟨s', hpush, hheight, hcarries⟩ := push_done h ht
  refine ⟨_, hcarries, ?_⟩
  rw [StackHeap.step, hpush, StackHeap.heighten, hheight]
  split_ifs <;> rfl

lemma step_pop_empty (h : Carries s t) (ht : t.pop = none) : s.step .pop = some (.null, s) := by
  rw [StackHeap.step, pop_empty h ht]
  rfl

lemma step_pop_done (h : Carries s t) (ht : t.pop = some (d, t')) :
    ∃ a s' lvl, s.step .pop = some (.level a, s') ∧ Carries s' t' ∧ s'.heap a = some lvl ∧
      lvl.data = d := by
  obtain ⟨a, s', lvl, hpop, hcarries, hlvl, hdata⟩ := pop_done h ht
  refine ⟨a, s', lvl, ?_, hcarries, hlvl, hdata⟩
  rw [StackHeap.step, hpop]
  rfl

/-- An operation is undefined only when the height leaves its range. -/
lemma step_eq_none (h : Carries s t) (op : StackOp δ) : s.step op = none ↔ ¬ Fits op s := by
  cases op with
  | push granted d =>
    have hmade := h.made
    have hheight := h.height
    cases ht : t.push granted d with
    | none =>
      obtain ⟨hfull, hdenied⟩ := LevelStack.push_eq_none.mp ht
      rw [LevelStack.Full] at hfull
      rw [step_push_refused h ht]
      have hfits : Fits (.push granted d) s := .inr ⟨by omega, hdenied⟩
      simp [hfits]
    | some t' =>
      obtain ⟨s', -, hstep⟩ := step_push_done h ht
      have hgranted : ¬ (s.height = s.made ∧ granted = false) := by
        rintro ⟨hfull, hdenied⟩
        have hall : t.levels.length = t.height := by omega
        have hnone : t.push granted d = none := LevelStack.push_eq_none.mpr ⟨hall, hdenied⟩
        rw [ht] at hnone
        cases hnone
      rw [hstep, Fits, or_iff_left hgranted]
      simp
  | pop =>
    have hfits : Fits (.pop : StackOp δ) s := trivial
    cases ht : t.pop with
    | none => simp [step_pop_empty h ht, hfits]
    | some top =>
      obtain ⟨d, t'⟩ := top
      obtain ⟨a, s', lvl, hstep, -⟩ := step_pop_done h ht
      simp [hstep, hfits]

end Stack

section Runs

variable {δ : Type} {C : StackOp δ → StackHeap δ → Prop} {s s' : StackHeap δ} {t : LevelStack δ}
  {past : List (StackOp δ × StackAnswer)} {op : StackOp δ} {answer : StackAnswer}

/-- One operation does to the list what it answers. -/
lemma step_onStack (h : Carries s t) (hpast : t.content = (onStack past).reverse)
    (hstep : s.step op = some (answer, s')) :
    ∃ t', Carries s' t' ∧ t'.content = (onStack ((op, answer) :: past)).reverse ∧
      (onStack ((op, answer) :: past)).length + popCount ((op, answer) :: past) + pushCount past =
        (onStack past).length + popCount past + pushCount ((op, answer) :: past) := by
  cases op with
  | push granted d =>
    cases ht : t.push granted d with
    | none =>
      rw [step_push_refused h ht] at hstep
      obtain ⟨rfl, rfl⟩ := Prod.mk.inj (Option.some.inj hstep)
      exact ⟨t, ⟨h.heap, h.made, h.bottom, h.top, h.height⟩, hpast, rfl⟩
    | some t' =>
      obtain ⟨s'', hcarries, hpush⟩ := step_push_done h ht
      rw [hpush] at hstep
      split_ifs at hstep
      obtain ⟨rfl, rfl⟩ := Prod.mk.inj (Option.some.inj hstep)
      refine ⟨t', hcarries, ?_, ?_⟩
      · rw [LevelStack.content_push ht, hpast, onStack, List.reverse_cons]
      · simp only [onStack, pushCount, popCount, List.length_cons]
        omega
  | pop =>
    cases ht : t.pop with
    | none =>
      rw [step_pop_empty h ht] at hstep
      obtain ⟨rfl, rfl⟩ := Prod.mk.inj (Option.some.inj hstep)
      exact ⟨t, h, hpast, rfl⟩
    | some top =>
      obtain ⟨d, t'⟩ := top
      obtain ⟨a, s'', lvl, hpop, hcarries, -, -⟩ := step_pop_done h ht
      rw [hpop] at hstep
      obtain ⟨rfl, rfl⟩ := Prod.mk.inj (Option.some.inj hstep)
      have hcontent := LevelStack.content_pop ht
      have honStack : onStack past = d :: t'.content.reverse := by
        rw [← List.reverse_reverse (onStack past), ← hpast, hcontent, List.reverse_concat]
      refine ⟨t', hcarries, ?_, ?_⟩
      · rw [onStack, honStack, List.tail_cons, List.reverse_reverse]
      · simp only [onStack, pushCount, popCount, honStack, List.tail_cons, List.length_cons]
        omega

lemma carries_of_run (h : StackRun C past s) :
    ∃ t, Carries s t ∧ t.content = (onStack past).reverse ∧
      pushCount past = popCount past + (onStack past).length := by
  induction h with
  | start errno => exact ⟨.empty, carries_makeStack errno, rfl, rfl⟩
  | step _ _ hstep ih =>
    obtain ⟨t, hcarries, hpast, hcount⟩ := ih
    obtain ⟨t', hcarries', hpast', hcount'⟩ := step_onStack hcarries hpast hstep
    exact ⟨t', hcarries', hpast', by omega⟩

/-- In every run whose pushes stay in the range of the height, the stack is the list of the data that
was pushed and not yet popped, its levels are one chain, a failed push changes nothing, and
`destroy_stack` frees every level once. The first push that leaves the range is undefined. -/
theorem stack_refines_list (h : StackRun Fits past s) :
    s.height = (pushCount past : Int) - popCount past ∧
      (∀ answer s', s.step .pop = some (answer, s') →
        match onStack past with
        | [] => answer = .null ∧ s' = s
        | data :: _ => ∃ a lvl, answer = .level a ∧ s'.heap a = some lvl ∧ lvl.data = data) ∧
      (∀ granted data s', s.step (.push granted data) = some (.null, s') →
        granted = false ∧ s' = { s with errno := .memory }) ∧
      (∃ ns, LevelChain s ns) ∧
      s.destroyStack = .released ((List.range s.made).reverse.map .level ++ [.wrapper]) ∧
      ∀ op, s.step op = none ↔ ¬ Fits op s := by
  obtain ⟨t, hcarries, hpast, hcount⟩ := carries_of_run h
  have hlength : t.height = (onStack past).length := by
    have hinside := t.inside
    rw [← List.length_reverse, ← hpast, LevelStack.content, List.length_take]
    omega
  refine ⟨?_, ?_, ?_, ⟨_, levelChain_of_carries hcarries⟩, destroyStack_released hcarries,
    step_eq_none hcarries⟩
  · rw [hcarries.height]
    omega
  · intro answer s' hstep
    cases ht : t.pop with
    | none =>
      have hempty := LevelStack.content_of_pop_none ht
      rw [hpast, List.reverse_eq_nil_iff] at hempty
      rw [step_pop_empty hcarries ht] at hstep
      obtain ⟨rfl, rfl⟩ := Prod.mk.inj (Option.some.inj hstep)
      rw [hempty]
      exact ⟨rfl, rfl⟩
    | some top =>
      obtain ⟨d, t'⟩ := top
      obtain ⟨a, s'', lvl, hpop, -, hlvl, hdata⟩ := step_pop_done hcarries ht
      have hcontent := LevelStack.content_pop ht
      have honStack : onStack past = d :: t'.content.reverse := by
        rw [← List.reverse_reverse (onStack past), ← hpast, hcontent, List.reverse_concat]
      rw [hpop] at hstep
      obtain ⟨rfl, rfl⟩ := Prod.mk.inj (Option.some.inj hstep)
      rw [honStack]
      exact ⟨a, lvl, rfl, hlvl, hdata⟩
  · intro granted d s' hstep
    cases ht : t.push granted d with
    | none =>
      rw [step_push_refused hcarries ht] at hstep
      obtain ⟨-, rfl⟩ := Prod.mk.inj (Option.some.inj hstep)
      exact ⟨(LevelStack.push_eq_none.mp ht).2, rfl⟩
    | some t' =>
      obtain ⟨s'', -, hpush⟩ := step_push_done hcarries ht
      rw [hpush] at hstep
      split_ifs at hstep
      cases (Prod.mk.inj (Option.some.inj hstep)).1

end Runs

/-- A level is pushed and popped, and is still there when the stack is destroyed. -/
theorem stack_refines_list_recycled :
    ∃ s : StackHeap Nat,
      StackRun Fits [(.pop, .level 0), (.push true 7, .stack)] s ∧ s.height = 0 ∧
        s.destroyStack = .released [.level 0, .wrapper] := by
  have hpush : StackRun Fits [(.push true (7 : Nat), .stack)] _ :=
    .step (.start .ok) (.inl (by decide)) rfl
  have hrun : StackRun Fits ((.pop, _) :: _) _ := .step hpush trivial rfl
  obtain ⟨hheight, -, -, -, hdestroy, -⟩ := stack_refines_list hrun
  exact ⟨_, hrun, hheight, hdestroy⟩

/-- As long as the height is in its range, pushes that get their memory raise it. -/
lemma runStack_pushes {n : Nat} (hn : (n : Int) ≤ intMax) :
    ∃ s t, runStack (List.replicate n (.push true ())) = some s ∧ Carries s t ∧ t.height = n := by
  induction n with
  | zero => exact ⟨_, _, rfl, carries_makeStack .ok, rfl⟩
  | succ n ih =>
    obtain ⟨s, t, hrun, hcarries, hheight⟩ := ih (by omega)
    cases ht : t.push true () with
    | none => cases (LevelStack.push_eq_none.mp ht).2
    | some t' =>
      obtain ⟨s', hcarries', hstep⟩ := step_push_done hcarries ht
      have hlt : s.height < intMax := by
        rw [hcarries.height, hheight]
        omega
      rw [if_pos hlt] at hstep
      refine ⟨s', t', ?_, hcarries', by rw [LevelStack.height_push ht, hheight]⟩
      rw [runStack] at hrun ⊢
      rw [List.replicate_succ', List.foldlM_append, hrun]
      simp [hstep]

/-- One push more than `height` can count, each with its memory. -/
theorem full_stack_overflows : runStack (List.replicate (2 ^ 31) (.push true ())) = none := by
  obtain ⟨n, hn⟩ : ∃ n : Nat, n + 1 = 2 ^ 31 := ⟨2147483647, by decide⟩
  have hmax : (n : Int) = intMax := by
    rw [intMax]
    omega
  obtain ⟨s, t, hrun, hcarries, hheight⟩ := runStack_pushes (Int.le_of_eq hmax)
  have hfits : ¬ Fits (.push true ()) s := by
    rintro (hlt | ⟨-, hdenied⟩)
    · rw [hcarries.height, hheight, hmax] at hlt
      exact Int.lt_irrefl _ hlt
    · cases hdenied
  have hnone := (step_eq_none hcarries (.push true ())).mpr hfits
  rw [runStack] at hrun ⊢
  rw [← hn, List.replicate_succ', List.foldlM_append, hrun]
  simp [hnone]

end Sfsexp.Proofs
