import Sfsexp.Model.Calls
import Sfsexp.Spec.Reader

/-!
# A client that passes its input in chunks

The loop of a client that holds each chunk of its input in a string of its own and passes the
chunks to `cparse_sexp` one after the other.
-/

namespace Sfsexp

/-- Calls `cparse_sexp` with the first chunk, again and again as long as `lastPos` is set, then with
the next one, up to a `SEXP_ERR_BADFORM`; at most `n` calls. `none` when a call is undefined. -/
def drive (g : Setup) : Nat → List (List Byte) → Pcont → ErrCode → Option (List Return)
  | _, [], _, _ => some []
  | 0, _ :: _, _, _ => none
  | n + 1, chunk :: rest, cc, errno =>
    match cparseSexp g (some (chunk ++ [nul])) chunk.length (some cc) errno with
    | .ret R =>
      if R.cc.error = .badForm then some [R]
      else
        (drive g n (if R.cc.lastPos = none then rest else chunk :: rest) R.cc R.errno).map (R :: ·)
    | _ => none

/-- More calls than the client makes. -/
def callBound (chunks : List (List Byte)) : Nat := chunks.flatten.length + chunks.length

/-- The client with a new continuation. -/
def driver (g : Setup) (chunks : List (List Byte)) : Option (List Return) :=
  drive g (callBound chunks) chunks (Pcont.new g) .ok

/-- The trees that the calls returned. -/
def treesOf (rs : List Return) : List Tree := rs.flatMap fun R => forest R.cc.lastSexp

/-- The error of the last call. -/
def finalError (rs : List Return) : Option ErrCode := rs.getLast?.map fun R => R.cc.error

end Sfsexp
