import Sfsexp.Model.Printer
import Sfsexp.Spec.Copies
import Sfsexp.Spec.Rendering

/-!
# What the growing printer asks memory for

The pieces that an expression is appended in, how often the string grows while they are appended, and
how many levels the stack needs.
-/

namespace Sfsexp.Spec

open Sfsexp

/-- The bytes of a text, each a piece of its own. -/
def bytewise (t : List Byte) : List (List Byte) := t.map fun c => [c]

mutual
/-- The pieces that an element is appended in. Only the header of a blob is longer than a byte. -/
def parts : Tree → List (List Byte)
  | .atom aty text => bytewise (renderAtom aty text)
  | .binary data => binHeader data.length :: bytewise (data ++ [space])
  | .list elems => [lparen] :: partsAll elems ++ [[rparen]]

def partsAll : List Tree → List (List Byte)
  | [] => []
  | x :: xs => parts x ++ bytewise (separator xs) ++ partsAll xs
end

mutual
/-- The levels of the stack that the lists of an element take. -/
def levelsOf : Tree → Nat
  | .atom _ _ => 0
  | .binary _ => 0
  | .list elems => levelsOfAll elems + 1

def levelsOfAll : List Tree → Nat
  | [] => 0
  | x :: xs => max (levelsOf x) (levelsOfAll xs)
end

section Growing

variable (growsize : Nat)

/-- The size of the buffer after a piece of `n` bytes was appended to `used` bytes. -/
def enlarged (used len n : Nat) : Nat := if used + n ≥ len then len + (growsize + n) else len

/-- The size of the buffer after the pieces `ps`. -/
def capacity : Nat → Nat → List (List Byte) → Nat
  | _, len, [] => len
  | used, len, a :: ps =>
    capacity (used + a.length) (enlarged growsize used len a.length) ps

/-- How often the buffer is enlarged for the pieces `ps`. -/
def growths : Nat → Nat → List (List Byte) → Nat
  | _, _, [] => 0
  | used, len, a :: ps =>
    (if used + a.length ≥ len then 1 else 0) +
      growths (used + a.length) (enlarged growsize used len a.length) ps

/-- The requests of the loop that prints `x` behind `used` bytes in a buffer of `len`: the level of
`x` itself, those of its lists, and the growths of the buffer. -/
def loopRequests (used len : Nat) (x : Tree) : Nat :=
  1 + (growths growsize used len (parts x) + levelsOf x)

end Growing

/-- The number of the first request behind those of `snew`, which a call without a string makes. The
second one is not made when the first one fails. -/
def copyAt (g : Setup) : Option CString → Nat
  | some _ => 0
  | none => if g.alloc 0 then 2 else 1

/-- The call gets no copy of the first element, or no stack. -/
def GivesUp (g : Setup) (s : Option CString) (x : Sexp) : Prop :=
  HeadFails g [x] (copyAt g s) ∨ ¬ g.alloc (copyAt g s + ownAllocs x) = true

/-- The size of the buffer that the call starts with. -/
def firstLen (ss : Nat) (s : Option CString) : Nat := (s.map (·.len)).getD ss

/-- The call appends nothing: the rendering has no bytes, or there is no level for the element. -/
def AppendsNothing (g : Setup) (s : Option CString) (x : Sexp) : Prop :=
  x.tree.render = [] ∨ ¬ g.alloc (copyAt g s + ownAllocs x + 1) = true

/-- The call has a string and everything its loop asks for, and the `used` bytes with the rendering
behind them have a length that an `int` holds. A rendering without bytes needs no level. -/
structure Finishes (g : StringSetup) (s : Option CString) (ss : Nat) (x : Sexp) (used : Nat) :
    Prop where
  string : s = none → Granted g.toSetup 2 0
  requests : x.tree.render = [] ∨
    Granted g.toSetup (loopRequests g.growsize used (firstLen ss s) x.tree)
      (copyAt g.toSetup s + ownAllocs x + 1)
  length : used + x.tree.render.length < 2 ^ 31

end Sfsexp.Spec
