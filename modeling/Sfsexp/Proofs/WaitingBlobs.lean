import Sfsexp.Proofs.LimitedCalls
import Sfsexp.Spec.TreeRuns

/-!
# Binary atoms that a call drops

A round that goes on to another element drops a binary atom that waits in `sx`, and the end of a size
drops the bytes of a blob that an earlier call left behind. With what is dropped beside them, the
blocks of a round are accounted for in any case.
-/

namespace Sfsexp.Proofs

open Sfsexp Spec Metered AllocOp

/-- The round ends no element. -/
structure Unended (l l' : Locals) : Prop where
  elts : l'.elts = l.elts
  stack : l'.stack = l.stack
  sx : l'.sx = l.sx

section Rounds

variable {env : Env} {l : Locals} {c : Byte}

lemma Unended.trans {l' l'' : Locals} (h : Unended l l') (h' : Unended l' l'') : Unended l l'' :=
  ⟨h'.elts.trans h.elts, h'.stack.trans h.stack, h'.sx.trans h.sx⟩

end Rounds

section Blocks

variable {z : Sizes} {env : Env} {l l' : Locals} {c : Byte}

end Blocks

end Sfsexp.Proofs
