import Mathlib.Logic.Function.Basic
import Sfsexp.Lib.Loop
import Sfsexp.Model.Sexp

/-!
# `faststack.c`

The stack with its levels in memory. A level is known by the number of the `malloc` it came from,
`none` is `NULL`, and an operation gives `none` when its run is undefined: when it dereferences `NULL`
or a level that was freed, or when `height` leaves the range of `int`.
-/

namespace Sfsexp

/-- `stack_lvl_t`. -/
structure StackLvl (δ : Type) where
  above : Option Nat
  below : Option Nat
  data : δ

/-- `faststack_t`, with the levels that are allocated, the number of them that were, and
`sexp_errno`. -/
structure StackHeap (δ : Type) where
  top : Option Nat
  bottom : Option Nat
  height : Int
  heap : Nat → Option (StackLvl δ)
  made : Nat
  errno : ErrCode

/-- The largest `int`. -/
def intMax : Int := 2 ^ 31 - 1

namespace StackHeap

variable {δ : Type}

/-- `make_stack` when its `malloc` succeeds. -/
def makeStack (errno : ErrCode) : StackHeap δ := ⟨none, none, 0, fun _ => none, 0, errno⟩

/-- Writes a level. -/
def write (a : Nat) (lvl : StackLvl δ) (s : StackHeap δ) : StackHeap δ :=
  { s with heap := Function.update s.heap a (some lvl) }

/-- `cur_stack->height++; return cur_stack;` -/
def heighten (s : StackHeap δ) : Option (Bool × StackHeap δ) :=
  if s.height < intMax then some (true, { s with height := s.height + 1 }) else none

/-- `push`, with whether the stack or `NULL` is returned; `granted` tells whether `malloc` succeeds
when it is called. -/
def push (granted : Bool) (data : δ) (s : StackHeap δ) : Option (Bool × StackHeap δ) :=
  match s.top with
  | some a => do
    let top ← s.heap a
    match top.above with
    | some b => do
      let lvl ← s.heap b
      ({ s with top := some b }.write b { lvl with data := data }).heighten
    | none =>
      if granted then
        let s' := (s.write a { top with above := some s.made }).write s.made ⟨none, some a, data⟩
        { s' with top := some s.made, made := s.made + 1 }.heighten
      else some (false, { s.write a { top with above := none } with errno := .memory })
  | none =>
    match s.bottom with
    | some a => do
      let lvl ← s.heap a
      ({ s with top := some a }.write a { lvl with data := data }).heighten
    | none =>
      if granted then
        let s' := s.write s.made ⟨none, none, data⟩
        { s' with top := some s.made, bottom := some s.made, made := s.made + 1 }.heighten
      else some (false, { s with top := none, errno := .memory })

/-- `pop`, with the level it returns. -/
def pop (s : StackHeap δ) : Option (Option Nat × StackHeap δ) :=
  match s.top with
  | some a =>
    if 0 < s.height then do
      let top ← s.heap a
      some (some a, { s with top := top.below, height := s.height - 1 })
    else if s.height < 1 then some (none, s)
    else some (some a, s)
  | none => some (none, s)

/-- `while (sl->above != NULL) sl = sl->above;` The loop is left with the level it ends at. -/
def climb (heap : Nat → Option (StackLvl δ)) (a : Nat) : Except (Option Nat) Nat :=
  match heap a with
  | none => .error none
  | some lvl =>
    match lvl.above with
    | some b => .ok b
    | none => .error (some a)

/-- What `destroy_stack` frees. -/
inductive Block where
  | level (a : Nat)
  | wrapper
  deriving DecidableEq, Repr

/-- The level `destroy_stack` has come down to, what is still allocated, and what was freed. -/
structure Descent (δ : Type) where
  level : Nat
  heap : Nat → Option (StackLvl δ)
  freed : List Block

/-- `sexp_free` of a level. -/
def Descent.free (p : Option Nat) (d : Descent δ) : Option (Descent δ) :=
  match p with
  | none => some d
  | some a =>
    (d.heap a).map fun _ =>
      { d with heap := Function.update d.heap a none, freed := d.freed ++ [.level a] }

/-- The loop that frees the level above, one after the other. -/
def descend (d : Descent δ) : Except (Option (Descent δ)) (Descent δ) :=
  match d.heap d.level with
  | none => .error none
  | some lvl =>
    match lvl.below with
    | none => .error (some d)
    | some b =>
      match d.heap b with
      | none => .error none
      | some lvl =>
        match { d with level := b }.free lvl.above with
        | none => .error none
        | some d => .ok d

/-- How `destroy_stack` ends. -/
inductive Teardown where
  | released (blocks : List Block)
  | undefined
  | diverges
  deriving DecidableEq, Repr

/-- `destroy_stack`; its loops are given more rounds than there are levels. -/
def destroyStack (s : StackHeap δ) : Teardown :=
  match s.bottom with
  | none => .released [.wrapper]
  | some a =>
    match Loop.run (climb s.heap) (s.made + 1) a with
    | none => .diverges
    | some none => .undefined
    | some (some b) =>
      match Loop.run descend (s.made + 1) ⟨b, s.heap, []⟩ with
      | none => .diverges
      | some none => .undefined
      | some (some d) =>
        match d.free (some d.level) with
        | none => .undefined
        | some d => .released (d.freed ++ [.wrapper])

end StackHeap

/-- The operations on a stack. -/
inductive StackOp (δ : Type) where
  | push (granted : Bool) (data : δ)
  | pop

/-- What an operation returns: `NULL`, the stack, or a level. -/
inductive StackAnswer where
  | null
  | stack
  | level (a : Nat)
  deriving DecidableEq, Repr

/-- One operation; `none` when it is undefined. -/
def StackHeap.step {δ : Type} (op : StackOp δ) (s : StackHeap δ) :
    Option (StackAnswer × StackHeap δ) :=
  match op with
  | .push granted data =>
    (s.push granted data).map fun (done, s) => (if done then .stack else .null, s)
  | .pop => s.pop.map fun (lvl, s) => (match lvl with | some a => .level a | none => .null, s)

/-- The runs from `make_stack` all of whose operations met `C`, with the operations and their answers,
the latest first. -/
inductive StackRun {δ : Type} (C : StackOp δ → StackHeap δ → Prop) :
    List (StackOp δ × StackAnswer) → StackHeap δ → Prop where
  | start (errno : ErrCode) : StackRun C [] (.makeStack errno)
  | step {past : List (StackOp δ × StackAnswer)} {s s' : StackHeap δ} {op : StackOp δ}
      {answer : StackAnswer} (h : StackRun C past s) (hC : C op s)
      (hstep : s.step op = some (answer, s')) : StackRun C ((op, answer) :: past) s'

/-- The operations one after the other on a new stack; `none` when one of them is undefined. -/
def runStack {δ : Type} (ops : List (StackOp δ)) : Option (StackHeap δ) :=
  ops.foldlM (fun s op => (s.step op).map (·.2)) (.makeStack .ok)

end Sfsexp
