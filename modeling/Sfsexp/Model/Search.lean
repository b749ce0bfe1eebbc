import Sfsexp.Model.Sexp

/-!
# `bfs_find_sexp`

The search for an atom by its text. A pointer to an element is its position: the index in the chain
that the search starts from, then the indices in the children of the lists on the way to it.
-/

namespace Sfsexp

/-- A way down from a chain, or from an element. -/
abbrev Position := List Nat

/-- `val` is the string `str`. The constructors leave `val` at `NULL` in a binary atom. -/
def valIs (str : List Byte) : Sexp → Bool
  | .value _ val _ _ => !val.isEmpty && cstr val == cstr str
  | _ => false

/-- The position of the next element of the chain. -/
def bump : Position → Position
  | i :: p => (i + 1) :: p
  | [] => []

mutual
/-- `bfs_find_sexp` on the children of an element: first all of them, then below each of them. -/
def bfsChildren (str : List Byte) : Sexp → Option Position
  | .list elems =>
    match elems.findIdx? (valIs str) with
    | some i => some [i]
    | none => bfsLists str elems
  | _ => none

/-- The second loop, which looks into the lists of the chain one after the other. -/
def bfsLists (str : List Byte) : List Sexp → Option Position
  | [] => none
  | t :: ts =>
    match bfsChildren str t with
    | some p => some (0 :: p)
    | none => (bfsLists str ts).map bump
end

/-- `bfs_find_sexp`. -/
def bfsFindSexp (str : List Byte) (sx : List Sexp) : Option Position := bfsChildren str (.list sx)

end Sfsexp
