import Sfsexp.Proofs.InlineRoundTrip
import Sfsexp.Proofs.LimitedRuns
import Sfsexp.Proofs.Printability
import Sfsexp.Proofs.WaitingBlobs

/-!
# The counter over a run

What a client does turns the blocks behind what it has into the blocks behind what it has afterwards
and those that nothing gives back any more. The counter is back where it was exactly when there are
no such blocks.
-/

namespace Sfsexp.Proofs

open Sfsexp Spec Metered AllocOp

section Calls

variable {z : Sizes} {g : Setup} {buf : List Byte} {str : Option (List Byte)} {len allocs : Nat}
  {cc : Pcont} {lc : Option Pcont} {errno : ErrCode} {R : Return}

end Calls

section Printers

variable {z : Sizes} {sx : List Sexp} {errno : ErrCode}

end Printers

section Runs

variable {z : Sizes} {s s' : Holdings} {act : TreeAct} {more : List AllocOp}

/-- The action turns the blocks of what the client has into those of what it has afterwards, and
others that are not there exactly when it gives back what it asked for. -/
def Loses (z : Sizes) (s s' : Holdings) (act : TreeAct) (more : List AllocOp) : Prop :=
  ∃ gone, Turns more (held z s) (held z s' + gone) ∧ (gone.sum = 0 ↔ GivesBack act)

lemma Loses.none (hact : GivesBack act) (h : Turns more (held z s) (held z s')) :
    Loses z s s' act more := by
  refine ⟨0, ?_, iff_of_true rfl hact⟩
  rwa [add_zero]

end Runs

section Requests

end Requests

section Clients

variable {z : Sizes} {cc : Pcont} {text : List Byte} {r : Return}

end Clients

end Sfsexp.Proofs
