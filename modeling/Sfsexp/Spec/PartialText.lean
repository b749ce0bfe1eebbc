import Sfsexp.Model.Locals
import Sfsexp.Spec.Rendering

/-!
# What `print_pcont` shows

The elements that are complete on the levels of a continuation, and the text of a half-built
expression: every element with a space behind it, and of a list without elements its opening paren,
as if the list were open.
-/

namespace Sfsexp.Spec

open Sfsexp

/-- The chains of complete elements. The last element of a level below the top is the list that is
open above it, and the bottom level has no other. -/
def completeChains : List (List Sexp) → List (List Sexp)
  | [] => []
  | top :: below => top :: below.dropLast.map List.dropLast

/-- The completed elements at every open level, the innermost first. -/
def completed (cc : Pcont) : List (List Tree) := (completeChains cc.stack.levels).map forest

/-- Not a list without elements. -/
def standsComplete : Tree → Bool
  | .list [] => false
  | _ => true

/-- The elements in front of the first list without elements. -/
def upToOpen (T : List Tree) : List Tree := T.takeWhile standsComplete

/-- The text of a level. What is behind a list without elements is not shown. -/
def shownLevel : List Tree → List Byte
  | [] => []
  | .list [] :: _ => [lparen]
  | x :: xs => x.render ++ space :: shownLevel xs

/-- The text of the levels, from the bottom. -/
def shownText (cc : Pcont) : List Byte :=
  (cc.stack.levels.reverse.map fun T => shownLevel (forest T)).flatten

/-- The half-built expression can be told from its text: the innermost open list has an element, no
complete element of an open list is a list without elements, and an `int` can count the text. -/
structure Retrievable (cc : Pcont) : Prop where
  inner : ∀ T, (completed cc).head? = some T → T ≠ []
  lists : ∀ T ∈ completed cc, ∀ x ∈ T, x ≠ .list []
  int : (shownText cc).length < 2 ^ 31

end Sfsexp.Spec
