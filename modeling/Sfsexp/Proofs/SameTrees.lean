import Sfsexp.Lib.Loop
import Sfsexp.Proofs.Stack
import Sfsexp.Spec.Reader

/-!
# Elements with the same trees

The parser puts elements on its stack and takes them off without a look at their buffers: on stacks
whose elements have the same trees it goes through the same rounds, and the trees it returns are the
same.
-/

namespace Sfsexp.Proofs

open Sfsexp

/-- The stacks hold the same trees. -/
structure SameTrees (s s' : Faststack) : Prop where
  levels : s'.levels.map forest = s.levels.map forest
  height : s'.height = s.height

/-- The locals with another stack, another chain in `sx` and other counters. -/
def restocked (s : Faststack) (x : List Sexp) (n a : Nat) (E : List Event) (l : Locals) : Locals :=
  { l with stack := s, sx := x, elts := n, allocs := a, events := E }

/-- The second locals hold the same trees, and have not completed more elements in this call. -/
def Akin (l l' : Locals) : Prop :=
  ∃ s x n a E, l' = restocked s x n a E l ∧ SameTrees l.stack s ∧ forest x = forest l.sx ∧ n ≤ l.elts

/-- Two returns with the same trees. -/
structure AkinReturn (R R' : Return) : Prop where
  cc : R'.cc = { R.cc with stack := R'.cc.stack, lastSexp := R'.cc.lastSexp }
  stack : SameTrees R.cc.stack R'.cc.stack
  tree : forest R'.cc.lastSexp = forest R.cc.lastSexp
  errno : R'.errno = R.errno
  cursor : R'.cursor = R.cursor

def AkinStop : Stop → Stop → Prop
  | .ret R, .ret R' => AkinReturn R R'
  | .fault f, .fault f' => f' = f
  | _, _ => False

/-- Two pieces of a round that do the same. -/
abbrev Alongside : Exec Locals → Exec Locals → Prop := Loop.Lockstep Akin AkinStop

section Pieces

variable {env : Env} {l l' : Locals} {c : Byte} {x x' y y' : Exec Locals} {f f' : Locals → Exec Locals}

lemma Alongside.bind (hxy : Alongside x x') (hf : ∀ l l', Akin l l' → Alongside (f l) (f' l')) :
    Alongside (x >>= f) (x' >>= f') := by
  cases x with
  | ok l =>
    cases x' with
    | ok l' => exact hf l l' hxy
    | error _ => exact hxy.elim
  | error _ =>
    cases x' with
    | ok _ => exact hxy.elim
    | error _ => exact hxy

end Pieces

section States

variable {env : Env} {l l' : Locals} {c : Byte}

end States

end Sfsexp.Proofs
