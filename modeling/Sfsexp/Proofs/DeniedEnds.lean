import Sfsexp.Proofs.DeniedStates
import Sfsexp.Proofs.Tokens

/-!
# What a failure at the end of a token leaves

The atom is lost, or made without its last byte, or its closing quote is read again. As many closing
parens as lists are open show it.
-/

namespace Sfsexp.Proofs

open Sfsexp Spec

section Readers

variable {r : Reader} {aty : AtomT} {l : Locals} {c : Byte} {L : List (List Sexp)}

end Readers

section Ends

variable {g : Setup} {env : Env} {l : Locals} {c : Byte} {R : Return} {L : List (List Sexp)}

end Ends

section Opens

variable {g : Setup} {cc : Pcont} {text : List Byte} {l : Locals} {i : Nat} {R : Return}
  {L₀ : List (List Sexp)} {errno : ErrCode}

end Opens

end Sfsexp.Proofs
