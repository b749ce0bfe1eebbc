import Sfsexp.Proofs.ClosingParens
import Sfsexp.Proofs.Recovery

/-!
# What an allocation failure damages

Runs from what a failed request leaves: the cursor of the atom buffer has fallen behind the count of
its bytes, so that the buffer is never grown again; the buffer is gone; or the run puts out no tree
any more.
-/

namespace Sfsexp.Proofs

open Sfsexp Spec

section Overflow

variable {env : Env} {l l' : Locals} {c : Byte} {u : List Byte}

/-- The loop from `l` runs into undefined behaviour. -/
def RunsWild (env : Env) (l : Locals) : Prop := ∃ f, Loop.Halts (cparseHead env) l (.fault f)

lemma RunsWild.exit {f : Fault} (h : cparseHead env l = .error (.fault f)) : RunsWild env l :=
  ⟨f, Loop.halts_of_exit h⟩

lemma RunsWild.next (h : cparseHead env l = .ok l') (hl' : RunsWild env l') : RunsWild env l := by
  obtain ⟨f, hf⟩ := hl'
  exact ⟨f, Loop.halts_of_next h hf⟩

end Overflow

section Silence

variable {g : Setup} {text : List Byte} {Inv : Locals → Prop} {cc : Pcont} {errno : ErrCode}
  {rs : List Return}

end Silence

end Sfsexp.Proofs
