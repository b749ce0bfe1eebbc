import Sfsexp.Model.BufferPrinter
import Sfsexp.Model.Locals

/-!
# `print_pcont`

The printer of a continuation whose expression is not complete. It walks the stack of the parser from
its bottom, prints the elements of each level with `print_sexp`, and copies what there is of a token
behind them.

A write outside of the buffer is undefined, and so is an `int` that overflows.
-/

namespace Sfsexp

/-- The ways `print_pcont` does not return: `diverges` when `print_sexp` did not end in its bound. -/
inductive PcontStop where
  | fault (f : Fault)
  | overflow
  | diverges
  deriving DecidableEq

abbrev PcontExec := Except PcontStop

/-- Why a call did not return. -/
def PcontExec.stopOf {α : Type} : PcontExec α → Option PcontStop
  | .ok _ => none
  | .error e => some e

/-- The memory of the buffer and `loc`; `cur` is `buf + loc`. The calls of `print_sexp` are counted,
and `errno` is `sexp_errno`. -/
structure PcontLocals where
  cells : List Byte
  loc : Nat
  calls : Nat
  errno : ErrCode

/-- What the function leaves behind: the terminator is at `nulAt`. -/
structure PcontPrinted where
  cells : List Byte
  nulAt : Nat
  errno : ErrCode

/-- `a - b` on `size_t`. -/
def sizeSub (a b : Nat) : Nat := if b ≤ a then a - b else a + 2 ^ 64 - b

/-- `strncpy` of `n` bytes from `src`: a shorter string is filled up with NULs. -/
def strncpy (n : Nat) (src : List Byte) : Except Fault (List Byte) :=
  if n ≤ src.length ∨ nul ∈ src then
    .ok ((cstr src).take n ++ List.replicate (n - (cstr src).length) nul)
  else .error .atomBuffer

namespace PcontLocals

/-- `buf[i] = c`; the index may be negative. -/
def put (i : Int) (c : Byte) (l : PcontLocals) : PcontExec PcontLocals :=
  if 0 ≤ i ∧ i < l.cells.length then .ok { l with cells := l.cells.set i.toNat c }
  else .error (.fault .string)

/-- `cur += n; loc += n;`. -/
def advance (n : Int) (l : PcontLocals) : PcontExec PcontLocals :=
  if l.loc + n < 2 ^ 31 then .ok { l with loc := (l.loc + n).toNat } else .error .overflow

/-- The call of `print_sexp` with what is left of the buffer. It returns `n`. -/
def callPrintSexp (gs : Nat → Setup) (rounds : Nat) (x : Sexp) (l : PcontLocals) :
    PcontExec (Int × PcontLocals) :=
  match printSexp (gs l.calls) rounds (l.cells.drop l.loc) (sizeSub l.cells.length l.loc) [x]
      l.errno with
  | .ret p => .ok (p.retval, { l with cells := l.cells.take l.loc ++ p.cells
                                      calls := l.calls + 1, errno := p.errno })
  | .fault f => .error (.fault f)
  | .diverges => .error .diverges

/-- A completed element and a space behind it. The result of `print_sexp` is used as an offset also
when it is -1. -/
def printElement (gs : Nat → Setup) (rounds : Nat) (x : Sexp) (l : PcontLocals) :
    PcontExec PcontLocals := do
  let (n, l) ← l.callPrintSexp gs rounds x
  let l ← l.put (l.loc + n) space
  l.advance (n + 1)

/-- The paren of a list that is taken for an open one. -/
def printOpen (l : PcontLocals) : PcontExec PcontLocals := do
  let l ← l.put l.loc lparen
  l.advance 1

/-- The elements of a level, up to a list without elements. -/
def printLevel (gs : Nat → Setup) (rounds : Nat) : List Sexp → PcontLocals → PcontExec PcontLocals
  | [], l => .ok l
  | .list [] :: _, l => l.printOpen
  | x :: xs, l => do
    let l ← l.printElement gs rounds x
    printLevel gs rounds xs l

/-- The levels from the bottom. Those that the stack keeps above its top hold no data. -/
def printLevels (gs : Nat → Setup) (rounds : Nat) :
    List (List Sexp) → PcontLocals → PcontExec PcontLocals
  | [], l => .ok l
  | level :: above, l =>
    if l.loc < sizeSub l.cells.length 1 then do
      let l ← l.printLevel gs rounds level
      printLevels gs rounds above l
    else .ok l

/-- What there is of a token: `n` bytes, copied to `cur`. -/
def copyToken (n : Nat) (val : List Byte) (l : PcontLocals) : PcontExec PcontLocals :=
  match strncpy n val with
  | .error f => .error (.fault f)
  | .ok text =>
    if l.loc + n ≤ l.cells.length then
      .ok { l with cells := l.cells.take l.loc ++ text ++ l.cells.drop (l.loc + n) }
    else .error (.fault .string)

/-- The bytes of the token that are copied. -/
def tokenRoom (valUsed : Nat) (l : PcontLocals) : Nat :=
  let left := sizeSub l.cells.length l.loc
  if valUsed < sizeSub left 1 then valUsed
  else if 2 < left then left - 2
  else 0

/-- The end of the function: the token, and the terminator behind it. -/
def printToken (val : List Byte) (valUsed : Nat) (l : PcontLocals) : PcontExec PcontPrinted := do
  let n := l.tokenRoom valUsed
  let l ← l.copyToken n val
  let l ← l.put (l.loc + n) nul
  .ok ⟨l.cells, l.loc + n, l.errno⟩

end PcontLocals

/-- `print_pcont` on a continuation and a buffer; each call of `print_sexp` is given a setup of its
own and at most `rounds` rounds. -/
def printPcont (gs : Nat → Setup) (rounds : Nat) (pc : Pcont) (buf : List Byte) (errno : ErrCode) :
    PcontExec PcontPrinted := do
  let l ← PcontLocals.printLevels gs rounds pc.stack.levels.reverse ⟨buf, 0, 0, errno⟩
  l.printToken pc.val pc.valUsed

end Sfsexp
