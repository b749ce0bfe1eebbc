import Mathlib.Data.List.Forall2
import Mathlib.Logic.Relation

/-!
# Loops that leave through an exit

A loop body is a function `step : σ → Except ρ σ`: it either hands on the next state or
leaves the loop with a result. This file relates three readings of such a loop: running
it with a bound on the number of iterations, the states it reaches, and the result it
leaves with.
-/

namespace Loop

variable {σ ρ : Type}

/-- At most `n` iterations of the loop; `none` when the bound is used up. -/
def run (step : σ → Except ρ σ) : Nat → σ → Option ρ
  | 0, _ => none
  | n + 1, s =>
    match step s with
    | .ok s' => run step n s'
    | .error r => some r

/-- The states at the heads of at most `n` iterations. -/
def heads (step : σ → Except ρ σ) : Nat → σ → List σ
  | 0, _ => []
  | n + 1, s =>
    s :: match step s with
      | .ok s' => heads step n s'
      | .error _ => []

/-- One iteration that stays in the loop. -/
def Next (step : σ → Except ρ σ) (s s' : σ) : Prop := step s = .ok s'

/-- The loop heads that are met when the loop is entered at `s`. -/
def Reaches (step : σ → Except ρ σ) : σ → σ → Prop := Relation.ReflTransGen (Next step)

/-- The loop heads that are met as long as every head before them satisfies `C`. -/
def ReachesWhile (step : σ → Except ρ σ) (C : σ → Prop) : σ → σ → Prop :=
  Relation.ReflTransGen fun s s' => C s ∧ step s = .ok s'

/-- The loop entered at `s` leaves with `r`. -/
def Halts (step : σ → Except ρ σ) (s : σ) (r : ρ) : Prop := ∃ n, run step n s = some r

variable {step : σ → Except ρ σ}

lemma run_succ_of_next {s s' : σ} (h : step s = .ok s') (n : Nat) :
    run step (n + 1) s = run step n s' := by
  rw [run, h]

lemma run_succ_of_exit {s : σ} {r : ρ} (h : step s = .error r) (n : Nat) :
    run step (n + 1) s = some r := by
  rw [run, h]

lemma exit_of_run_one {s : σ} {r : ρ} (h : run step 1 s = some r) : step s = .error r := by
  rw [run] at h
  cases hs : step s with
  | ok s' =>
    rw [hs] at h
    cases h
  | error r' =>
    rw [hs] at h
    rw [Option.some.inj h]

/-- A larger bound does not change the result. -/
theorem run_mono {n m : Nat} (hnm : n ≤ m) {s : σ} {r : ρ} (h : run step n s = some r) :
    run step m s = some r := by
  induction n generalizing m s with
  | zero => simp [run] at h
  | succ n ih =>
    obtain ⟨m, rfl⟩ : ∃ k, m = k + 1 := ⟨m - 1, by omega⟩
    cases hs : step s with
    | ok s' =>
      rw [run_succ_of_next hs] at h ⊢
      exact ih (by omega) h
    | error r' =>
      rw [run_succ_of_exit hs] at h ⊢
      exact h

theorem halts_unique {s : σ} {r r' : ρ} (h : Halts step s r) (h' : Halts step s r') : r = r' := by
  obtain ⟨n, hn⟩ := h
  obtain ⟨m, hm⟩ := h'
  have hl := run_mono (Nat.le_max_left n m) hn
  have hr := run_mono (Nat.le_max_right n m) hm
  exact Option.some.inj (hl.symm.trans hr)

lemma halts_of_exit {s : σ} {r : ρ} (h : step s = .error r) : Halts step s r :=
  ⟨1, run_succ_of_exit h 0⟩

lemma halts_of_next {s s' : σ} {r : ρ} (h : step s = .ok s') (hr : Halts step s' r) :
    Halts step s r := by
  obtain ⟨n, hn⟩ := hr
  exact ⟨n + 1, (run_succ_of_next h n).trans hn⟩

lemma halts_of_reaches {s s' : σ} {r : ρ} (h : Reaches step s s') (hr : Halts step s' r) :
    Halts step s r := by
  induction h using Relation.ReflTransGen.head_induction_on with
  | refl => exact hr
  | head h _ ih => exact halts_of_next h ih

/-- The result does not depend on where on its way the loop is entered. -/
lemma halts_of_halts_of_reaches {s s' : σ} {r : ρ} (h : Reaches step s s') (hr : Halts step s r) :
    Halts step s' r := by
  induction h using Relation.ReflTransGen.head_induction_on with
  | refl => exact hr
  | head h _ ih =>
    obtain ⟨n, hn⟩ := hr
    cases n with
    | zero => simp [run] at hn
    | succ n =>
      rw [run_succ_of_next h] at hn
      exact ih ⟨n, hn⟩

/-- What one iteration preserves holds at every loop head. -/
theorem invariant_of_step {Inv : σ → Prop} (hstep : ∀ s s', Inv s → step s = .ok s' → Inv s')
    {s s' : σ} (hs : Inv s) (h : Reaches step s s') : Inv s' := by
  induction h with
  | refl => exact hs
  | tail _ h ih => exact hstep _ _ ih h

/-- What the iterations from heads with `C` preserve holds at every head met on the way. -/
theorem invariant_of_step_while {Inv C : σ → Prop}
    (hstep : ∀ s s', Inv s → C s → step s = .ok s' → Inv s') {s s' : σ} (hs : Inv s)
    (h : ReachesWhile step C s s') : Inv s' := by
  induction h with
  | refl => exact hs
  | tail _ h ih => exact hstep _ _ ih h.1 h.2

/-- The result comes from the last loop head that was reached. -/
theorem exit_of_halts {s : σ} {r : ρ} (h : Halts step s r) :
    ∃ s', Reaches step s s' ∧ step s' = .error r := by
  obtain ⟨n, hn⟩ := h
  induction n generalizing s with
  | zero => simp [run] at hn
  | succ n ih =>
    cases hs : step s with
    | ok s' =>
      rw [run_succ_of_next hs] at hn
      obtain ⟨t, ht, hr⟩ := ih hn
      exact ⟨t, Relation.ReflTransGen.head hs ht, hr⟩
    | error r' =>
      rw [run_succ_of_exit hs] at hn
      exact ⟨s, Relation.ReflTransGen.refl, by rw [hs, Option.some.inj hn]⟩

/-- A result that was computed, with a property of every loop head that was met. -/
theorem exit_while_of_run {C : σ → Prop} {n : Nat} {s : σ} {r : ρ} (h : run step n s = some r)
    (hC : ∀ s' ∈ heads step n s, C s') :
    ∃ s', ReachesWhile step C s s' ∧ C s' ∧ step s' = .error r := by
  induction n generalizing s with
  | zero => simp [run] at h
  | succ n ih =>
    rw [heads, List.forall_mem_cons] at hC
    obtain ⟨hs, hrest⟩ := hC
    cases hstep : step s with
    | ok s₁ =>
      rw [run_succ_of_next hstep] at h
      rw [hstep] at hrest
      obtain ⟨s', hreach, hs', hexit⟩ := ih h hrest
      exact ⟨s', Relation.ReflTransGen.head ⟨hs, hstep⟩ hreach, hs', hexit⟩
    | error r' =>
      rw [run_succ_of_exit hstep] at h
      exact ⟨s, Relation.ReflTransGen.refl, hs, by rw [hstep, Option.some.inj h]⟩

/-- The heads of a bounded run are met, as long as all of them satisfy `C`. -/
theorem reachesWhile_of_mem_heads {C : σ → Prop} {n : Nat} {s s' : σ} (h : s' ∈ heads step n s)
    (hC : ∀ t ∈ heads step n s, C t) : ReachesWhile step C s s' := by
  induction n generalizing s with
  | zero => simp [heads] at h
  | succ n ih =>
    rw [heads, List.forall_mem_cons] at hC
    obtain ⟨hs, hrest⟩ := hC
    rw [heads, List.mem_cons] at h
    rcases h with rfl | h
    · exact Relation.ReflTransGen.refl
    cases hstep : step s with
    | ok s₁ =>
      rw [hstep] at h hrest
      exact Relation.ReflTransGen.head ⟨hs, hstep⟩ (ih h hrest)
    | error r =>
      rw [hstep] at h
      simp at h

/-- A bounded run that leaves the loop has passed every head that is reached. -/
theorem mem_heads_of_reaches {n : Nat} {s s' : σ} {r : ρ} (hrun : run step n s = some r)
    (h : Reaches step s s') : s' ∈ heads step n s := by
  induction n generalizing s with
  | zero => cases hrun
  | succ n ih =>
    rw [heads, List.mem_cons]
    rcases Relation.ReflTransGen.cases_head h with rfl | ⟨s₁, hstep, hrest⟩
    · exact .inl rfl
    · have hstep : step s = .ok s₁ := hstep
      rw [run_succ_of_next hstep] at hrun
      rw [hstep]
      exact .inr (ih hrun hrest)

/-- What one iteration preserves holds at the heads of a bounded run. -/
theorem heads_of_step {Inv : σ → Prop} (hstep : ∀ s s', Inv s → step s = .ok s' → Inv s') {s : σ}
    (hs : Inv s) (n : Nat) : ∀ s' ∈ heads step n s, Inv s' := by
  induction n generalizing s with
  | zero => simp [heads]
  | succ n ih =>
    rw [heads, List.forall_mem_cons]
    refine ⟨hs, ?_⟩
    cases h : step s with
    | ok s' => exact ih (hstep s s' hs h)
    | error r => exact fun _ hmem => absurd hmem List.not_mem_nil

/-- A measure that every iteration lowers bounds the number of iterations. -/
theorem run_of_measure {Inv : σ → Prop} (μ : σ → Nat)
    (hstep : ∀ s s', Inv s → step s = .ok s' → Inv s' ∧ μ s' < μ s)
    {s : σ} (hs : Inv s) {n : Nat} (hn : μ s < n) : ∃ r, run step n s = some r := by
  induction n generalizing s with
  | zero => omega
  | succ n ih =>
    cases h : step s with
    | ok s' =>
      obtain ⟨hi, hμ⟩ := hstep s s' hs h
      rw [run_succ_of_next h]
      exact ih hi (by omega)
    | error r => exact ⟨r, run_succ_of_exit h n⟩

/-- Under such a measure the bounded run computes the result of the loop. -/
theorem run_eq_some_iff_halts {Inv : σ → Prop} (μ : σ → Nat)
    (hstep : ∀ s s', Inv s → step s = .ok s' → Inv s' ∧ μ s' < μ s)
    {s : σ} (hs : Inv s) {n : Nat} (hn : μ s < n) {r : ρ} :
    run step n s = some r ↔ Halts step s r := by
  refine ⟨fun h => ⟨n, h⟩, fun h => ?_⟩
  obtain ⟨r', hr'⟩ := run_of_measure μ hstep hs hn
  rw [hr', halts_unique h ⟨n, hr'⟩]

section TwoLoops

variable {τ π : Type} {step' : τ → Except π τ} {R : σ → τ → Prop} {E : ρ → π → Prop}

/-- Two iterations that end alike: both stay in their loops, or both leave them. -/
def Lockstep (R : σ → τ → Prop) (E : ρ → π → Prop) : Except ρ σ → Except π τ → Prop
  | .ok s, .ok t => R s t
  | .error r, .error p => E r p
  | _, _ => False

/-- Loops whose iterations end alike pass related heads. -/
theorem heads_lockstep (hstep : ∀ s t, R s t → Lockstep R E (step s) (step' t)) {s : σ} {t : τ}
    (h : R s t) (n : Nat) : List.Forall₂ R (heads step n s) (heads step' n t) := by
  induction n generalizing s t with
  | zero => exact .nil
  | succ n ih =>
    have hnext := hstep s t h
    rw [heads, heads]
    match step s, step' t, hnext with
    | .ok _, .ok _, hnext => exact .cons h (ih hnext)
    | .error _, .error _, _ => exact .cons h .nil

/-- And they leave with related results. -/
theorem run_lockstep (hstep : ∀ s t, R s t → Lockstep R E (step s) (step' t)) {s : σ} {t : τ}
    (h : R s t) (n : Nat) : Option.Rel E (run step n s) (run step' n t) := by
  induction n generalizing s t with
  | zero => exact .none
  | succ n ih =>
    have hnext := hstep s t h
    rw [run, run]
    match step s, step' t, hnext with
    | .ok _, .ok _, hnext => exact ih hnext
    | .error _, .error _, hnext => exact .some hnext

end TwoLoops

end Loop
