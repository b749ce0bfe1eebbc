import Sfsexp.Model.Calls
import Sfsexp.Model.Printer

/-!
# `iparse_sexp`

The wrapper of `cparse_sexp` that hands out the expressions of a string one by one, and a client that
calls it until it returns `NULL`.
-/

namespace Sfsexp

/-- What `iparse_sexp` returns, with the caller's continuation and `sexp_errno` afterwards. -/
structure Popped where
  sx : List Sexp
  cc : Option Pcont
  errno : ErrCode

/-- `iparse_sexp`; `none` where the run is undefined. -/
def iparseSexp (g : Setup) (s : Option (List Byte)) (len : Nat) (cc : Option Pcont)
    (errno : ErrCode) : Option Popped :=
  match cc with
  | none => some ⟨[], none, .badParam⟩
  | some cc =>
    match cparseSexp g s len (some cc) errno with
    | .ret R => some ⟨R.cc.lastSexp, some { R.cc with lastSexp := [] }, R.errno⟩
    | .null errno => some ⟨[], some cc, errno⟩
    | _ => none

/-- Calls `iparse_sexp` with the same string until it returns `NULL`, at most `n` times. `none` when a
call is undefined, or when there are more calls to make. -/
def iparseAll (g : Setup) (buf : List Byte) (len : Nat) : Nat → Option Pcont → ErrCode →
    Option (List (List Sexp))
  | 0, _, _ => none
  | n + 1, cc, errno =>
    match iparseSexp g (some buf) len cc errno with
    | none => none
    | some p =>
      if p.sx = [] then some []
      else (iparseAll g buf len n p.cc p.errno).map (p.sx :: ·)

/-- `t` is the text that `print_sexp_cstr` leaves in a new string. -/
def Prints (g : StringSetup) (ss : Nat) (errno : ErrCode) (x : Sexp) (t : List Byte) : Prop :=
  ∃ n p s, printSexpCstr g n none [x] ss errno = .ret p ∧ p.str = some s ∧
    t = s.base.take s.curlen

end Sfsexp
