import Sfsexp.Model.Driver
import Sfsexp.Spec.LimitedRuns

/-!
# What a client gets out of its chunks

The calls of a client that passes its input in chunks, and what they give it in the end.
-/

namespace Sfsexp.Spec

open Sfsexp

/-- A client passes the chunks one after the other, calls again with the same chunk as long as
`lastPos` is set and stops at a `SEXP_ERR_BADFORM`. Its calls are nested, and one that resets `lastPos`
has read its chunk to the end. -/
inductive ClientRun (g : Setup) : List (List Byte) → Pcont → ErrCode → List Return → Prop
  | done {cc : Pcont} {errno : ErrCode} : ClientRun g [] cc errno []
  | stop {u : List Byte} {rest : List (List Byte)} {cc : Pcont} {errno : ErrCode} {R : Return}
      (hcall : NestedCall ⟨g, some (u ++ [nul]), u.length, some cc⟩)
      (hrun : cparseSexp g (some (u ++ [nul])) u.length (some cc) errno = .ret R)
      (hbad : R.cc.error = .badForm) : ClientRun g (u :: rest) cc errno [R]
  | again {u : List Byte} {rest : List (List Byte)} {cc : Pcont} {errno : ErrCode} {R : Return}
      {rs : List Return} (hcall : NestedCall ⟨g, some (u ++ [nul]), u.length, some cc⟩)
      (hrun : cparseSexp g (some (u ++ [nul])) u.length (some cc) errno = .ret R)
      (hgood : R.cc.error ≠ .badForm) (hpos : R.cc.lastPos ≠ none)
      (hrest : ClientRun g (u :: rest) R.cc R.errno rs) : ClientRun g (u :: rest) cc errno (R :: rs)
  | next {u : List Byte} {rest : List (List Byte)} {cc : Pcont} {errno : ErrCode} {R : Return}
      {rs : List Return} (hcall : NestedCall ⟨g, some (u ++ [nul]), u.length, some cc⟩)
      (hrun : cparseSexp g (some (u ++ [nul])) u.length (some cc) errno = .ret R)
      (hgood : R.cc.error ≠ .badForm) (hpos : R.cc.lastPos = none) (hend : R.cursor = u.length)
      (hrest : ClientRun g rest R.cc R.errno rs) : ClientRun g (u :: rest) cc errno (R :: rs)

/-- The loop heads of the calls on all of `w`, from the head `start` of one of them on. -/
inductive WholeHead (g : Setup) (w : List Byte) : Locals → Locals → Prop
  | here {start l : Locals}
      (h : Loop.Reaches (cparseHead ⟨g, w ++ [nul], w.length⟩) start l) : WholeHead g w start l
  | again {start l : Locals} {R : Return}
      (hrun : Loop.Halts (cparseHead ⟨g, w ++ [nul], w.length⟩) start (.ret R))
      (hgood : R.cc.error ≠ .badForm) (hpos : R.cc.lastPos ≠ none)
      (h : WholeHead g w (R.cc.enter 0) l) : WholeHead g w start l

/-- The next byte is the second one of an escape pair inside double quotes. -/
def ClosesPair (w : List Byte) (l : Locals) : Prop :=
  l.state = .s5 ∧ ∃ c, w[l.t]? = some c ∧ (l.esc && isEscapable c) = true

/-- The trees of the calls. -/
def chainsOf (rs : List Return) : List (List Sexp) :=
  (rs.map fun R => R.cc.lastSexp).filter fun sx => !sx.isEmpty

/-- The callbacks of the calls. -/
def callbacksOf (rs : List Return) : List Event := rs.flatMap fun R => R.events

/-- Where the calls leave the continuation, and the error of the last one. -/
def leftBehind (rs : List Return) : Option (Regs × ErrCode) :=
  rs.getLast?.map fun R => (R.cc.toRegs, R.cc.error)

/-- The same trees, callbacks, and end. -/
structure SameReading (rs rs' : List Return) : Prop where
  chains : chainsOf rs = chainsOf rs'
  callbacks : callbacksOf rs = callbacksOf rs'
  left : leftBehind rs = leftBehind rs'

end Sfsexp.Spec
