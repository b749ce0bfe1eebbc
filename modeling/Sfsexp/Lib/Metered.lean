import Mathlib.Algebra.BigOperators.Group.Multiset.Basic
import Mathlib.Algebra.Order.Group.Multiset
import Sfsexp.Lib.Loop

/-!
# Programs that ask for memory

The calls that a program makes to its allocator, read by the sizes it passes: a call names a block
by its size, so the live blocks are a multiset of sizes. A metered computation is a computation with
the calls it makes; `Turns` tells what a list of calls makes of the blocks that are live, whatever
else is live beside them.
-/

/-- A call to an allocator, by the sizes it passes. -/
inductive AllocOp where
  | alloc (size : Nat)
  | realloc (size oldsize : Nat)
  | free (size : Nat)
  deriving DecidableEq, Repr

namespace AllocOp

/-- What a call makes of the live blocks; `none` when it passes the size of no live block. -/
def run : AllocOp → Multiset Nat → Option (Multiset Nat)
  | alloc size, live => some (size ::ₘ live)
  | realloc size oldsize, live =>
    if oldsize ∈ live then some (size ::ₘ live.erase oldsize) else none
  | free size, live => if size ∈ live then some (live.erase size) else none

/-- The calls one after the other. -/
def replay : List AllocOp → Multiset Nat → Option (Multiset Nat)
  | [], live => some live
  | op :: ops, live => (op.run live).bind (replay ops)

/-- The calls turn the blocks `m` into the blocks `m'`, and leave every other block alone. -/
def Turns (ops : List AllocOp) (m m' : Multiset Nat) : Prop :=
  ∀ others, replay ops (m + others) = some (m' + others)

variable {ops ops' : List AllocOp} {m m' m'' : Multiset Nat}

lemma replay_append (ops ops' : List AllocOp) (live : Multiset Nat) :
    replay (ops ++ ops') live = (replay ops live).bind (replay ops') := by
  induction ops generalizing live with
  | nil => rfl
  | cons op ops ih =>
    rw [List.cons_append, replay, replay]
    cases op.run live with
    | none => rfl
    | some live' => exact ih live'

@[simp] lemma turns_nil : Turns [] m m := fun _ => rfl

lemma turns_of_eq (h : m = m') : Turns [] m m' := by
  rw [h]
  exact turns_nil

lemma turns_alloc {size : Nat} (h : m' = {size} + m) : Turns [.alloc size] m m' := by
  intro others
  rw [replay, run, h, add_assoc, Multiset.singleton_add]
  rfl

lemma turns_free {size : Nat} (h : m = {size} + m') : Turns [.free size] m m' := by
  intro others
  rw [replay, run, h, add_assoc, Multiset.singleton_add, if_pos (Multiset.mem_cons_self _ _),
    Multiset.erase_cons_head]
  rfl

lemma turns_realloc {size oldsize : Nat} {r : Multiset Nat} (h : m = {oldsize} + r)
    (h' : m' = {size} + r) : Turns [.realloc size oldsize] m m' := by
  intro others
  rw [replay, run, h, h', add_assoc, add_assoc, Multiset.singleton_add, Multiset.singleton_add,
    if_pos (Multiset.mem_cons_self _ _), Multiset.erase_cons_head]
  rfl

lemma Turns.append (h : Turns ops m m') (h' : Turns ops' m' m'') : Turns (ops ++ ops') m m'' := by
  intro others
  rw [replay_append, h others]
  exact h' others

/-- Blocks that the calls do not touch. -/
lemma Turns.frame (h : Turns ops m m') (r : Multiset Nat) : Turns ops (m + r) (m' + r) := by
  intro others
  rw [add_assoc, add_assoc]
  exact h (r + others)

/-- Calls that only make blocks, beside others. -/
lemma Turns.make (h : Turns ops 0 m) (r : Multiset Nat) : Turns ops r (m + r) := by
  have hframe := h.frame r
  rwa [zero_add] at hframe

/-- Calls that only give blocks back, beside others. -/
lemma Turns.give (h : Turns ops m 0) (r : Multiset Nat) : Turns ops (m + r) r := by
  have hframe := h.frame r
  rwa [zero_add] at hframe

lemma turns_free_replicate (n size : Nat) :
    Turns (List.replicate n (.free size)) (Multiset.replicate n size) 0 := by
  induction n with
  | zero => exact turns_nil
  | succ n ih =>
    rw [List.replicate_succ, Multiset.replicate_succ, ← Multiset.singleton_add]
    exact (turns_free rfl).append ih

end AllocOp

/-- A computation with the calls it makes to the allocator. -/
structure Metered (ε α : Type) where
  ops : List AllocOp
  value : Except ε α

namespace Metered

open AllocOp

variable {ε ε' α β : Type}

/-- A computation that does not call the allocator. -/
def lift (x : Except ε α) : Metered ε α := ⟨[], x⟩

/-- A call by itself. -/
def charge (ops : List AllocOp) : Metered ε Unit := ⟨ops, .ok ()⟩

def bind (x : Metered ε α) (f : α → Metered ε β) : Metered ε β :=
  match x.value with
  | .ok a => ⟨x.ops ++ (f a).ops, (f a).value⟩
  | .error e => ⟨x.ops, .error e⟩

instance : Monad (Metered ε) where
  pure a := lift (.ok a)
  bind := bind

def mapError (f : ε → ε') (x : Metered ε α) : Metered ε' α := ⟨x.ops, x.value.mapError f⟩

@[simp] lemma value_lift (x : Except ε α) : (lift x).value = x := rfl

@[simp] lemma value_pure (a : α) : (pure a : Metered ε α).value = .ok a := rfl

@[simp] lemma value_charge (ops : List AllocOp) : (charge ops : Metered ε Unit).value = .ok () := rfl

/-- Without its meter, a sequence of computations is the sequence of the plain ones. -/
@[simp] lemma value_bind (x : Metered ε α) (f : α → Metered ε β) :
    (x >>= f).value = x.value >>= fun a => (f a).value := by
  change (bind x f).value = _
  rw [bind]
  cases x.value <;> rfl

@[simp] lemma value_mapError (f : ε → ε') (x : Metered ε α) :
    (x.mapError f).value = x.value.mapError f := rfl

/-- From the blocks `m` the computation ends with the blocks `A a` with the value `a`, and
with the blocks `E e` with the error `e`, unless nothing is said about `e`. -/
def Settles (m : Multiset Nat) (x : Metered ε α) (A : α → Multiset Nat)
    (E : ε → Option (Multiset Nat)) : Prop :=
  match x.value with
  | .ok a => Turns x.ops m (A a)
  | .error e => ∀ m', E e = some m' → Turns x.ops m m'

variable {m : Multiset Nat} {x : Metered ε α} {f : α → Metered ε β} {A : α → Multiset Nat}
  {B : β → Multiset Nat} {E : ε → Option (Multiset Nat)}

lemma settles_ok {a : α} (hx : x.value = .ok a) : Settles m x A E ↔ Turns x.ops m (A a) := by
  rw [Settles, hx]

lemma Settles.turns {a : α} (h : Settles m x A E) (hx : x.value = .ok a) : Turns x.ops m (A a) :=
  (settles_ok hx).mp h

lemma settles_error {e : ε} (hx : x.value = .error e) :
    Settles m x A E ↔ ∀ m', E e = some m' → Turns x.ops m m' := by
  rw [Settles, hx]

lemma Settles.bind (hx : Settles m x A E) (hf : ∀ a, x.value = .ok a → Settles (A a) (f a) B E) :
    Settles m (x >>= f) B E := by
  change Settles m (Metered.bind x f) B E
  rw [Metered.bind]
  cases hvalue : x.value with
  | error e =>
    rw [settles_error hvalue] at hx
    exact hx
  | ok a =>
    rw [settles_ok hvalue] at hx
    have hrest := hf a hvalue
    change Settles m ⟨x.ops ++ (f a).ops, (f a).value⟩ B E
    cases hlast : (f a).value with
    | ok b =>
      rw [settles_ok hlast] at hrest
      rw [settles_ok rfl]
      exact hx.append hrest
    | error e =>
      rw [settles_error hlast] at hrest
      rw [settles_error rfl]
      exact fun m' hm' => hx.append (hrest m' hm')

/-- Blocks beside those of the computation. -/
lemma Settles.frame (hx : Settles m x A E) (r : Multiset Nat) :
    Settles (m + r) x (fun a => A a + r) fun e => (E e).map (· + r) := by
  cases hvalue : x.value with
  | ok a =>
    rw [settles_ok hvalue] at hx ⊢
    exact hx.frame r
  | error e =>
    rw [settles_error hvalue] at hx ⊢
    intro m' hm'
    obtain ⟨k, hk, rfl⟩ := Option.map_eq_some_iff.mp hm'
    exact (hx k hk).frame r

/-- What is said about the errors of a computation is kept when they are renamed. -/
lemma Settles.mapError {E' : ε' → Option (Multiset Nat)} (hx : Settles m x A E) (f : ε → ε')
    (hf : ∀ e, E' (f e) = E e) : Settles m (x.mapError f) A E' := by
  cases hvalue : x.value with
  | ok a =>
    rw [settles_ok hvalue] at hx
    rw [settles_ok (a := a) (by rw [value_mapError, hvalue]; rfl)]
    exact hx
  | error e =>
    rw [settles_error hvalue] at hx
    rw [settles_error (e := f e) (by rw [value_mapError, hvalue]; rfl), hf]
    exact hx

/-- The blocks at the end told otherwise. -/
lemma Settles.congr {A' : α → Multiset Nat} {E' : ε → Option (Multiset Nat)} (hx : Settles m x A E)
    (hok : ∀ a, x.value = .ok a → A a = A' a)
    (herror : ∀ e, x.value = .error e → ∀ m', E' e = some m' → E e = some m') : Settles m x A' E' := by
  cases hvalue : x.value with
  | ok a =>
    rw [settles_ok hvalue] at hx ⊢
    rwa [← hok a hvalue]
  | error e =>
    rw [settles_error hvalue] at hx ⊢
    exact fun m' hm' => hx m' (herror e hvalue m' hm')

/-- Without calls the blocks stay the same. -/
lemma settles_lift {x : Except ε α} (hok : ∀ a, x = .ok a → m = A a)
    (herror : ∀ e, x = .error e → ∀ m', E e = some m' → m = m') : Settles m (lift x) A E := by
  cases x with
  | ok a => exact turns_of_eq (hok a rfl)
  | error e => exact fun m' hm' => turns_of_eq (herror e rfl m' hm')

/-- A loop with its meter: at most `n` iterations. -/
def loop {σ ρ : Type} (step : σ → Metered ρ σ) : Nat → σ → List AllocOp × Option ρ
  | 0, _ => ([], none)
  | n + 1, s =>
    match (step s).value with
    | .ok s' => ((step s).ops ++ (loop step n s').1, (loop step n s').2)
    | .error r => ((step s).ops, some r)

section Loops

variable {σ ρ : Type} {step : σ → Metered ρ σ} {Inv : σ → Prop} {own : σ → Multiset Nat}
  {left : ρ → Option (Multiset Nat)}

/-- Without its meter the loop is the plain one, read through `π` where the metered one leaves with
more. -/
lemma loop_value {ρ' : Type} {plain : σ → Except ρ' σ} (π : ρ → ρ')
    (hplain : ∀ s, (step s).value.mapError π = plain s) (n : Nat) (s : σ) :
    (loop step n s).2.map π = Loop.run plain n s := by
  induction n generalizing s with
  | zero => rfl
  | succ n ih =>
    have hs := hplain s
    rw [loop, Loop.run]
    cases hvalue : (step s).value with
    | ok s' =>
      rw [hvalue] at hs
      rw [← hs]
      exact ih s'
    | error r =>
      rw [hvalue] at hs
      rw [← hs]
      rfl

lemma loop_value_same {plain : σ → Except ρ σ} (hplain : ∀ s, (step s).value = plain s) (n : Nat)
    (s : σ) : (loop step n s).2 = Loop.run plain n s := by
  rw [← loop_value id (fun s => ?_) n s, Option.map_id]
  · rfl
  · rw [← hplain s]
    cases (step s).value <;> rfl

/-- What the iterations lose, added up. -/
def lostBy (step : σ → Metered ρ σ) (lost : σ → Multiset Nat) : Nat → σ → Multiset Nat
  | 0, _ => 0
  | n + 1, s =>
    match (step s).value with
    | .ok s' => lostBy step lost n s' + lost s
    | .error _ => lost s

lemma lostBy_zero (step : σ → Metered ρ σ) (n : Nat) (s : σ) : lostBy step (fun _ => 0) n s = 0 := by
  induction n generalizing s with
  | zero => rfl
  | succ n ih =>
    rw [lostBy]
    cases (step s).value with
    | ok s' => exact (add_zero _).trans (ih s')
    | error r => rfl

/-- Iterations that lose blocks: besides that, the loop does from its entry to its exit what they do
to the blocks of the state. -/
theorem turns_losing_loop {lost : σ → Multiset Nat}
    (hstep : ∀ s, Inv s → Settles (own s) (step s) (fun s' => own s' + lost s)
      fun r => (left r).map (· + lost s))
    (hinv : ∀ s s', Inv s → (step s).value = .ok s' → Inv s') {n : Nat} {s : σ} {r : ρ} (hs : Inv s)
    (hrun : (loop step n s).2 = some r) (hleft : left r = some m) :
    Turns (loop step n s).1 (own s) (m + lostBy step lost n s) := by
  induction n generalizing s with
  | zero => cases hrun
  | succ n ih =>
    have hfirst := hstep s hs
    rw [loop] at hrun ⊢
    rw [lostBy]
    cases hvalue : (step s).value with
    | ok s' =>
      rw [settles_ok hvalue] at hfirst
      rw [hvalue] at hrun
      dsimp only
      rw [← add_assoc]
      exact hfirst.append ((ih (hinv s s' hs hvalue) hrun).frame (lost s))
    | error r' =>
      rw [settles_error hvalue] at hfirst
      rw [hvalue] at hrun
      obtain rfl := Option.some.inj hrun
      exact hfirst _ (by rw [hleft]; rfl)

/-- What the iterations do to the blocks of the state, the loop does from its entry to its exit. -/
theorem turns_loop (hstep : ∀ s, Inv s → Settles (own s) (step s) own left)
    (hinv : ∀ s s', Inv s → (step s).value = .ok s' → Inv s') {n : Nat} {s : σ} {r : ρ} (hs : Inv s)
    (hrun : (loop step n s).2 = some r) (hleft : left r = some m) :
    Turns (loop step n s).1 (own s) m := by
  let none : σ → Multiset Nat := fun _ => 0
  have hnone : ∀ s, Inv s → Settles (own s) (step s) (fun s' => own s' + none s)
      fun r => (left r).map (· + none s) := by
    intro s hs
    simpa [none] using hstep s hs
  have hloop := turns_losing_loop hnone hinv hs hrun hleft
  rwa [lostBy_zero, add_zero] at hloop

end Loops

end Metered
