import Sfsexp.Lib.Loop
import Sfsexp.Model.CString

/-!
# `print_sexp_cstr`

The printer walks an expression with a stack of its own: a level holds what is left of a chain,
and the list whose children are printed stays the first element of its chain until they are done.
-/

namespace Sfsexp

/-- The copy of a text atom. -/
def copyText (g : Setup) (aty : AtomT) (val : List Byte) (valAllocated valUsed : Nat) (h : Heap) :
    Except Fault (Option Sexp × Heap) :=
  if val = [] then
    -- `val` is `NULL`
    if 0 < valUsed ∨ 0 < valAllocated then .ok (none, { h with errno := .badContent })
    else .ok (some (.value aty [] valAllocated valUsed), h)
  else if !g.alloc h.allocs then .ok (none, h.fail)
  else if valUsed ≤ valAllocated ∧ valUsed ≤ val.length then
    .ok (some (.value aty (val.take valUsed ++ List.replicate (valAllocated - valUsed) nul)
      valAllocated valUsed), h.next)
  else .error .atomBuffer

/-- The copy of a binary atom. One without bytes is taken for a failed allocation. -/
def copyBlob (g : Setup) (bindata : Option (List Byte)) (binlength : Nat) (h : Heap) :
    Except Fault (Option Sexp × Heap) :=
  match bindata with
  | none => .ok (none, { h with errno := if 0 < binlength then .badContent else .memory })
  | some data =>
    if !g.alloc h.allocs then .ok (none, h.fail)
    else if binlength ≤ data.length then
      .ok (some (.blob (some (data.take binlength)) binlength), h.next)
    else .error .blob

mutual
/-- `copy_sexp` on one element, up to its `next` pointer. -/
def copyElement (g : Setup) : Sexp → Heap → Except Fault (Option Sexp × Heap)
  | .value aty val valAllocated valUsed, h =>
    if !g.alloc h.allocs then .ok (none, h.fail)
    else copyText g aty val valAllocated valUsed h.next
  | .blob bindata binlength, h =>
    if !g.alloc h.allocs then .ok (none, h.fail)
    else copyBlob g bindata binlength h.next
  | .list elems, h =>
    if !g.alloc h.allocs then .ok (none, h.fail)
    else
      (copySexp g elems h.next).map fun (elems, h) => (some (.list elems), h)

/-- `copy_sexp`. An element that cannot be copied ends the chain. -/
def copySexp (g : Setup) : List Sexp → Heap → Except Fault (List Sexp × Heap)
  | [], h => .ok ([], h)
  | x :: xs, h =>
    match copyElement g x h with
    | .error f => .error f
    | .ok (none, h) => .ok ([], h)
    | .ok (some x, h) => (copySexp g xs h).map fun (xs, h) => (x :: xs, h)
end

/-- The backslash in front of a byte that needs escaping. -/
def printEscape (g : StringSetup) (aty : AtomT) (c : Byte) (o : Output) : Except Fault Output :=
  if (c = dquote ∨ c = backslash) ∧ aty = .dquote then saddch g backslash o else .ok o

/-- The loop over the text of an atom. -/
def printText (g : StringSetup) (aty : AtomT) : List Byte → Output → Except Fault Output
  | [], _ => .error .atomBuffer
  | c :: cs, o =>
    if c = nul then .ok o
    else do
      let o ← printEscape g aty c o
      let o ← saddch g c o
      printText g aty cs o

/-- The quote in front of an atom. -/
def openQuote (g : StringSetup) (aty : AtomT) (o : Output) : Except Fault Output :=
  if aty = .dquote then saddch g dquote o
  else if aty = .squote then saddch g tick o
  else .ok o

/-- The quote behind an atom. -/
def closeQuote (g : StringSetup) (aty : AtomT) (o : Output) : Except Fault Output :=
  if aty = .dquote then saddch g dquote o else .ok o

/-- The text of an atom that has one. -/
def printVal (g : StringSetup) (aty : AtomT) (val : List Byte) (valUsed : Nat) (o : Output) :
    Except Fault Output :=
  if 0 < valUsed then printText g aty val o else .ok o

/-- The bytes of a binary atom, one after the other. -/
def printBytes (g : StringSetup) : List Byte → Output → Except Fault Output
  | [], o => .ok o
  | c :: cs, o => do
    let o ← saddch g c o
    printBytes g cs o

/-- The header `#b#<length>#`. -/
def binHeader (binlength : Nat) : List Byte :=
  [hash, letterB, hash] ++ (Nat.toDigits 10 binlength).map (fun d => d.toNat.toUInt8) ++ [hash]

/-- An atom. Nothing is printed for a list, which the loop deals with. -/
def printAtom (g : StringSetup) (x : Sexp) (o : Output) : Except Fault Output :=
  match x with
  | .value aty val _ valUsed => do
    let o ← openQuote g aty o
    let o ← printVal g aty val valUsed o
    closeQuote g aty o
  | .blob bindata binlength => do
    let o ← sadd g (binHeader binlength) o
    if (bindata.getD []).length < binlength then .error .blob
    else do
      let o ← printBytes g ((bindata.getD []).take binlength) o
      saddch g space o
  | .list _ => .ok o

/-- The locals of the printer: `_s`, its stack and `depth`. -/
structure PrintLocals where
  out : Output
  stack : Faststack
  depth : Nat

/-- How the loop of the printer is left. -/
abbrev PrintExec := Except (Except Fault PrintLocals)

/-- A step that may write outside a buffer. -/
def attempt {α : Type} (x : Except Fault α) : PrintExec α :=
  match x with
  | .ok a => .ok a
  | .error f => .error (.error f)

/-- `push`; the printer goes on as before when it fails. -/
def printPush (g : Setup) (data : List Sexp) (l : PrintLocals) : PrintLocals :=
  if 0 < l.stack.spare then
    { l with stack := ⟨data :: l.stack.levels, l.stack.spare - 1, l.stack.height + 1⟩ }
  else if g.alloc l.out.allocs then
    { l with stack := ⟨data :: l.stack.levels, 0, l.stack.height + 1⟩
             out := { l.out with allocs := l.out.allocs + 1 } }
  else { l with out := { l.out.fail with str := l.out.str } }

/-- A space in front of a further element. -/
def separate (g : StringSetup) (xs : List Sexp) (o : Output) : Except Fault Output :=
  if xs = [] then .ok o else saddch g space o

/-- The paren that closes a list. -/
def printParen (g : StringSetup) (l : PrintLocals) : PrintExec PrintLocals :=
  if 0 < l.depth then do
    let out ← attempt (saddch g rparen l.out)
    .ok { l with out := out, depth := l.depth - 1 }
  else .ok l

/-- `top->data = top->data->next`, with a space when an element follows. -/
def printNext (g : StringSetup) (l : PrintLocals) : PrintExec PrintLocals :=
  match l.stack.levels with
  | [] => .error (.ok l)
  | [] :: _ => .error (.error .nullPointer)
  | (_ :: xs) :: rest => do
    let out ← attempt (separate g xs l.out)
    .ok { l with out := out, stack := { l.stack with levels := xs :: rest } }

/-- The end of a chain: the list it belongs to is closed and passed over. -/
def printClose (g : StringSetup) (l : PrintLocals) : PrintExec PrintLocals :=
  match l.stack.pop with
  | none => .error (.error .nullPointer)
  | some (_, stack) => do
    let l ← printParen g { l with stack := stack }
    printNext g l

/-- One round of the loop. -/
def printHead (g : StringSetup) (l : PrintLocals) : PrintExec PrintLocals :=
  match l.stack.levels with
  | [] => .error (.ok l)
  | [] :: _ => printClose g l
  | (.list elems :: _) :: _ => do
    let out ← attempt (saddch g lparen l.out)
    .ok (printPush g.toSetup elems { l with out := out, depth := l.depth + 1 })
  | (x :: _) :: _ => do
    let out ← attempt (printAtom g x l.out)
    printNext g { l with out := out }

/-- The loop that closes what is still open. -/
def closeParens (g : StringSetup) : Nat → Output → Except Fault Output
  | 0, o => .ok o
  | depth + 1, o => do
    let o ← saddch g rparen o
    closeParens g depth o

/-- What a call of the printer returns, and the string that the caller's pointer is left with. -/
structure Printed where
  retval : Int
  str : Option CString
  errno : ErrCode

/-- The outcome of a call of the printer; `diverges` when its loop did not end in the bound. -/
inductive PrintResult where
  | ret (p : Printed)
  | fault (f : Fault)
  | diverges

/-- A `size_t` as an `int`. -/
def toInt (n : Nat) : Int := Int.bmod n (2 ^ 32)

/-- The end of the function, from the locals that the loop left behind. -/
def printFinish (g : StringSetup) : Option (Except Fault PrintLocals) → PrintResult
  | none => .diverges
  | some (.error f) => .fault f
  | some (.ok l) =>
    match closeParens g l.depth l.out with
    | .error f => .fault f
    | .ok o => .ret ⟨match o.str with | none => 0 | some s => toInt s.curlen, o.str, o.errno⟩

/-- The element without its `list`, as `tmp` holds it. -/
def Sexp.unlinked : Sexp → Sexp
  | .list _ => .list []
  | x => x

/-- `fakehead->list = sx->list`. -/
def relink (fakehead sx : Sexp) : Sexp :=
  match fakehead, sx with
  | .list _, .list elems => .list elems
  | x, _ => x

/-- `print_sexp_cstr` with at most `n` rounds of its loop. `s` is the string the caller's pointer
holds, and the first element of the chain `sx` is printed. -/
def printSexpCstr (g : StringSetup) (n : Nat) (s : Option CString) (sx : List Sexp) (ss : Nat)
    (errno : ErrCode) : PrintResult :=
  match sx with
  | [] => .ret ⟨-1, s, errno⟩
  | x :: _ =>
    let out := match s with
      | none => snew g ss ⟨0, errno⟩
      | some s => { allocs := 0, errno := errno, str := some s }
    match copySexp g.toSetup [x.unlinked] out.toHeap with
    | .error f => .fault f
    | .ok ([], _) => .ret ⟨-1, s, .memory⟩
    | .ok (fakehead :: _, h) =>
      if !g.alloc h.allocs then .ret ⟨-1, s, .memory⟩
      else
        let l : PrintLocals := ⟨{ h.next with str := out.str }, makeStack, 0⟩
        printFinish g
          (Loop.run (printHead g) n (printPush g.toSetup [relink fakehead x] l))

end Sfsexp
