import Sfsexp.Model.Printer
import Sfsexp.Spec.Rendering

/-!
# The traversal behind a printer

What a printer puts out when nothing stops it, piece by piece. The traversal depends on the
expression and on which levels of its stack can be allocated, and on no buffer: a printer into a
buffer puts out the same pieces until it is full.
-/

namespace Sfsexp.Spec

open Sfsexp

/-- What a printer puts out in one go. The bytes of a blob are copied at once. -/
inductive Piece where
  | byte (c : Byte)
  | blob (data : List Byte)

def Piece.bytes : Piece → List Byte
  | .byte c => [c]
  | .blob data => (Tree.binary data).render

/-- The text of the pieces. -/
def spelled (ps : List Piece) : List Byte := ps.flatMap Piece.bytes

@[simp] lemma spelled_nil : spelled [] = [] := rfl

@[simp] lemma spelled_append (ps qs : List Piece) :
    spelled (ps ++ qs) = spelled ps ++ spelled qs := by
  simp [spelled]

@[simp] lemma spelled_bytes (t : List Byte) : spelled (t.map .byte) = t := by
  induction t with
  | nil => rfl
  | cons c t ih => simpa [spelled, Piece.bytes] using ih

/-- An atom in pieces. A list is dealt with by the traversal. -/
def atomPieces : Tree → List Piece
  | .atom aty text => (renderAtom aty text).map .byte
  | .binary data => [.blob data]
  | .list _ => []

/-- The elements still to print on each level, from the top, the levels allocated above the top, the
allocations asked for so far, and the parens that are open. -/
structure Walk where
  levels : List (List Tree)
  spare : Nat
  allocs : Nat
  depth : Nat

namespace Walk

/-- A level for the children of a list, if it can be allocated. -/
def push (g : Setup) (elems : List Tree) (w : Walk) : Walk :=
  if 0 < w.spare then { w with levels := elems :: w.levels, spare := w.spare - 1 }
  else if g.alloc w.allocs then { w with levels := elems :: w.levels, allocs := w.allocs + 1 }
  else { w with allocs := w.allocs + 1 }

/-- The first element of the top level is done. -/
def next (w : Walk) : List Piece × Walk :=
  match w.levels with
  | (_ :: xs) :: rest => ((separator xs).map .byte, { w with levels := xs :: rest })
  | _ => ([], w)

/-- One step, with the pieces it puts out; `none` at the end. -/
def step (g : Setup) (w : Walk) : Option (List Piece × Walk) :=
  match w.levels with
  | [] => none
  | [] :: rest =>
    let (ps, w') := next { w with levels := rest, spare := w.spare + 1, depth := w.depth - 1 }
    some ((if 0 < w.depth then [.byte rparen] else []) ++ ps, w')
  | (.list elems :: _) :: _ => some ([.byte lparen], push g elems { w with depth := w.depth + 1 })
  | (x :: _) :: _ =>
    let (ps, w') := w.next
    some (atomPieces x ++ ps, w')

/-- The traversal puts out `ps` on the way from `w` to `w'`. -/
inductive Puts (g : Setup) : Walk → List Piece → Walk → Prop where
  | refl (w : Walk) : Puts g w [] w
  | step {w w' w'' : Walk} {ps qs : List Piece} (h : w.step g = some (ps, w'))
      (hrest : Puts g w' qs w'') : Puts g w (ps ++ qs) w''

/-- The traversal of the expression `x`, when `allocs` allocations were asked for before. -/
def start (g : Setup) (x : Tree) (allocs : Nat) : Walk :=
  push g [x] { levels := [], spare := 0, allocs := allocs, depth := 0 }

end Walk

/-- Behind `o` bytes, one of the pieces is a blob that a buffer of `size` bytes cannot take: one in
front of everything else with no room for its first bytes, or one whose last byte is the last of the
buffer. -/
def Clash (size : Nat) : Nat → List Piece → Prop
  | _, [] => False
  | o, .byte _ :: ps => Clash size (o + 1) ps
  | o, .blob data :: ps =>
    (o = 0 ∧ size ≤ 3) ∨ (data ≠ [] ∧ o + (binHeader data.length ++ data).length = size) ∨
      Clash size (o + (Piece.blob data).bytes.length) ps

end Sfsexp.Spec
