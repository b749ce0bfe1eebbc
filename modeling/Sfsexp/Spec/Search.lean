import Mathlib
import Sfsexp.Model.Search

/-!
# Where a text occurs

The positions at which an expression holds a text, the depth of the shallowest of them, and the
expressions in which a search that looks below one list after the other meets it first.
-/

namespace Sfsexp.Spec

open Sfsexp

/-- The element at the position `p` below `x`. -/
def elementAt : Sexp → Position → Option Sexp
  | x, [] => some x
  | .list elems, i :: p => elems[i]?.bind fun y => elementAt y p
  | _, _ :: _ => none

/-- An atom with the text `name` stands at the position `p` below `x`. -/
def Occurs (name : List Byte) (x : Sexp) (p : Position) : Prop :=
  ∃ y, elementAt x p = some y ∧ valIs name y = true

/-- No occurrence in the chain is above the one at `p`, and none of the same depth is left of it. -/
structure Shallowest (name : List Byte) (start : List Sexp) (p : Position) : Prop where
  occurs : Occurs name (.list start) p
  least : ∀ q, Occurs name (.list start) q → p.length ≤ q.length
  leftmost : ∀ q, Occurs name (.list start) q → q.length = p.length → p ≤ q

/-- What is found is the first occurrence in the order of the text, and nothing is found only where
there is none. -/
def FirstFound (name : List Byte) (x : Sexp) : Option Position → Prop
  | some p => Occurs name x p ∧ ∀ q, Occurs name x q → p ≤ q
  | none => ∀ q, ¬ Occurs name x q

mutual
/-- The list steps down to the shallowest occurrence, `⊤` when there is none. -/
noncomputable def depthIn (name : List Byte) : Sexp → ℕ∞
  | .list elems => depthInAll name elems + 1
  | x => if valIs name x then 0 else ⊤

noncomputable def depthInAll (name : List Byte) : List Sexp → ℕ∞
  | [] => ⊤
  | x :: xs => min (depthIn name x) (depthInAll name xs)
end

mutual
/-- Below the element, the search meets the shallowest occurrence first: of the lists in a chain
without a direct occurrence, the first that holds the text holds it as near to the top as any other,
and so on inside that list. -/
def Guided (name : List Byte) : Sexp → Prop
  | .list elems => (∃ x ∈ elems, valIs name x = true) ∨ GuidedAll name elems
  | _ => True

def GuidedAll (name : List Byte) : List Sexp → Prop
  | [] => True
  | x :: xs =>
    (depthIn name x = ⊤ ∧ GuidedAll name xs) ∨
      (depthIn name x ≠ ⊤ ∧ Guided name x ∧ depthIn name x ≤ depthInAll name xs)
end

end Sfsexp.Spec
