import Sfsexp.Lib.Chain
import Sfsexp.Model.Faststack

/-!
# What a stack of levels is for

A plain list of data, which only its history determines, and the chain of levels that carries it.
-/

namespace Sfsexp.Spec

open Sfsexp

variable {δ : Type}

/-- The data that was pushed and not yet popped, the most recent first, by what was asked and
answered. -/
def onStack : List (StackOp δ × StackAnswer) → List δ
  | [] => []
  | (.push _ data, .stack) :: past => data :: onStack past
  | (.pop, .level _) :: past => (onStack past).tail
  | _ :: past => onStack past

/-- The number of pushes that did not return `NULL`. -/
def pushCount : List (StackOp δ × StackAnswer) → Nat
  | [] => 0
  | (.push _ _, .stack) :: past => pushCount past + 1
  | _ :: past => pushCount past

/-- The number of pops that did not return `NULL`. -/
def popCount : List (StackOp δ × StackAnswer) → Nat
  | [] => 0
  | (.pop, .level _) :: past => popCount past + 1
  | _ :: past => popCount past

/-- The levels `ns`, from the bottom up, are all there are. They form one chain in both directions,
and the top is the one whose number is the height. -/
structure LevelChain (s : StackHeap δ) (ns : List Nat) : Prop where
  nodup : ns.Nodup
  all : ∀ a, a ∈ ns ↔ a < s.made
  upward : Chain.Linked (fun a => (s.heap a).bind (·.above)) s.bottom ns
  downward : Chain.Linked (fun a => (s.heap a).bind (·.below)) ns.getLast? ns.reverse
  height : 0 ≤ s.height ∧ s.height ≤ ns.length
  top : s.top = (ns.take s.height.toNat).getLast?

end Sfsexp.Spec
