import Sfsexp.Model.Printer

/-!
# How a half-built expression is laid out

The elements on the levels of a stack are put into a line of `size` cells, from the bottom level to the
top: an element with a space behind it, a list without elements as a paren. An element that does
not fit into what is left is passed over. What an element comes to is left open: `shows k x m` says
that the attempt number `k` spells `x` with `m` bytes, and `intact k x` that the attempt is defined.
-/

namespace Sfsexp.Spec

open Sfsexp

section Layout

variable (shows : Nat → Sexp → Nat → Prop) (intact : Nat → Sexp → Prop) (size : Nat)

/-- An element fits behind `p` cells, with room for one more byte. -/
def FitsAt (k : Nat) (x : Sexp) (p : Nat) : Prop := ∃ m, shows k x m ∧ p + m < size

/-- The attempt number `k` at the element `x`, at position `p`, ends at another position. No cell in
front of the line is touched, and the positions are `int`s. -/
inductive Places (k : Nat) (x : Sexp) (p : Nat) : Nat → Prop where
  | placed {m r : Nat} (hintact : intact k x) (hshows : shows k x m) (hfits : p + m < size)
      (hend : p + toInt m + 1 = r) (hpos : 0 < r) (hint : r < 2 ^ 31) : Places k x p r
  | passed (hintact : p < size → intact k x) (hfull : ¬ FitsAt shows size k x p) (hpos : 0 < p) :
      Places k x p p

/-- The elements of one level, from position `p` and attempt `k` on, end at position `q` with attempt
`k'`. -/
inductive LaysLevel : List Sexp → Nat → Nat → Nat → Nat → Prop where
  | done (k p : Nat) : LaysLevel [] k p k p
  | opened {xs : List Sexp} {k p : Nat} (hroom : p < size) (hint : p + 1 < 2 ^ 31) :
      LaysLevel (.list [] :: xs) k p k (p + 1)
  | element {x : Sexp} {xs : List Sexp} {k p r k' q : Nat} (hlist : x ≠ .list [])
      (hplaces : Places shows intact size k x p r) (hrest : LaysLevel xs (k + 1) r k' q) :
      LaysLevel (x :: xs) k p k' q

/-- The levels, from the bottom one. A level is begun while there is room for two more bytes. -/
inductive Lays : List (List Sexp) → Nat → Nat → Nat → Prop where
  | done (k p : Nat) : Lays [] k p p
  | full {level : List Sexp} {above : List (List Sexp)} {k p : Nat} (hfull : size ≤ p + 1) :
      Lays (level :: above) k p p
  | level {level : List Sexp} {above : List (List Sexp)} {k p k' r q : Nat} (hroom : p + 1 < size)
      (hlevel : LaysLevel shows intact size level k p k' r) (hrest : Lays above k' r q) :
      Lays (level :: above) k p q

end Layout

end Sfsexp.Spec
