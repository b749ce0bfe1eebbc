import Sfsexp.Model.BufferPrinter
import Sfsexp.Model.Constructors
import Sfsexp.Model.LimitedParser

/-!
# Strings, copies and printers in the build that limits memory

The functions of `cstring.c`, `copy_sexp`, the two printers and the constructors once more, with the
calls they make to the allocator. Steps that ask for no memory are taken over as they are.
-/

namespace Sfsexp.Limited

open AllocOp Metered

variable (z : Sizes)

/-- `snew`. -/
def snewOps (g : Setup) (s : Nat) (h : Heap) : List AllocOp :=
  if !g.alloc h.allocs then []
  else if !g.alloc h.next.allocs then [.alloc z.cstring, .free z.cstring]
  else [.alloc z.cstring, .alloc s]

/-- What `sadd` and `saddch` do with the bytes they append. -/
def append (g : StringSetup) (a : List Byte) (o : Output) : Metered Fault Output :=
  ⟨match o.str with
    | none => []
    | some s =>
      if s.curlen + a.length ≥ s.len ∧ g.alloc o.allocs then
        [.realloc (s.len + (g.growsize + a.length)) s.len]
      else [],
    Sfsexp.append g a o⟩

def sadd (g : StringSetup) (a : List Byte) (o : Output) : Metered Fault Output :=
  append g (cstr a) o

def saddch (g : StringSetup) (a : Byte) (o : Output) : Metered Fault Output := append g [a] o

/-- `strim`. -/
def strimOps (g : Setup) (o : Output) : List AllocOp :=
  match o.str with
  | none => []
  | some s =>
    if s.len = s.curlen + 1 ∨ !g.alloc o.allocs then [] else [.realloc (s.curlen + 1) s.len]

/-- `sdestroy`. -/
def sdestroy (s : CString) : List AllocOp := [.free s.len, .free z.cstring]

/-- The copy of a text atom, for which there is a node already. -/
def copyText (g : Setup) (aty : AtomT) (val : List Byte) (valAllocated valUsed : Nat) (h : Heap) :
    Metered Fault (Option Sexp × Heap) :=
  ⟨if val = [] then if 0 < valUsed ∨ 0 < valAllocated then [.free z.sexpT] else []
    else if !g.alloc h.allocs then [.free z.sexpT]
    else [.alloc valAllocated],
    Sfsexp.copyText g aty val valAllocated valUsed h⟩

/-- The copy of a binary atom, for which there is a node already. -/
def copyBlob (g : Setup) (bindata : Option (List Byte)) (binlength : Nat) (h : Heap) :
    Metered Fault (Option Sexp × Heap) :=
  ⟨if bindata.isNone ∨ !g.alloc h.allocs then [.free z.sexpT] else [.alloc binlength],
    Sfsexp.copyBlob g bindata binlength h⟩

mutual
/-- `copy_sexp` on one element, up to its `next` pointer. -/
def copyElement (g : Setup) : Sexp → Heap → Metered Fault (Option Sexp × Heap)
  | .value aty val valAllocated valUsed, h =>
    if !g.alloc h.allocs then pure (none, h.fail)
    else do
      charge [.alloc z.sexpT]
      copyText z g aty val valAllocated valUsed h.next
  | .blob bindata binlength, h =>
    if !g.alloc h.allocs then pure (none, h.fail)
    else do
      charge [.alloc z.sexpT]
      copyBlob z g bindata binlength h.next
  | .list elems, h =>
    if !g.alloc h.allocs then pure (none, h.fail)
    else do
      charge [.alloc z.sexpT]
      let (elems, h) ← copySexp g elems h.next
      pure (some (.list elems), h)

/-- `copy_sexp`. -/
def copySexp (g : Setup) : List Sexp → Heap → Metered Fault (List Sexp × Heap)
  | [], h => pure ([], h)
  | x :: xs, h => do
    let (x, h) ← copyElement g x h
    match x with
    | none => pure ([], h)
    | some x => do
      let (xs, h) ← copySexp g xs h
      pure (x :: xs, h)
end

/-- `new_sexp_list`. -/
def newSexpListOps (g : Setup) (h : Heap) : List AllocOp :=
  if !g.alloc h.allocs then [] else [.alloc z.sexpT]

/-- `new_sexp_atom`. -/
def newSexpAtomOps (g : Setup) (bs : Nat) (aty : AtomT) (h : Heap) : List AllocOp :=
  if aty = .binary ∨ !g.alloc h.allocs then []
  else if !g.alloc h.next.allocs then [.alloc z.sexpT, .free z.sexpT]
  else [.alloc z.sexpT, .alloc (bs + 1)]

section StringPrinter

variable (g : StringSetup)

def printEscape (aty : AtomT) (c : Byte) (o : Output) : Metered Fault Output :=
  if (c = dquote ∨ c = backslash) ∧ aty = .dquote then saddch g backslash o else pure o

/-- The loop over the text of an atom. -/
def printText (aty : AtomT) : List Byte → Output → Metered Fault Output
  | [], _ => lift (.error .atomBuffer)
  | c :: cs, o =>
    if c = nul then pure o
    else do
      let o ← printEscape g aty c o
      let o ← saddch g c o
      printText aty cs o

def openQuote (aty : AtomT) (o : Output) : Metered Fault Output :=
  if aty = .dquote then saddch g dquote o
  else if aty = .squote then saddch g tick o
  else pure o

def closeQuote (aty : AtomT) (o : Output) : Metered Fault Output :=
  if aty = .dquote then saddch g dquote o else pure o

def printVal (aty : AtomT) (val : List Byte) (valUsed : Nat) (o : Output) : Metered Fault Output :=
  if 0 < valUsed then printText g aty val o else pure o

/-- The bytes of a binary atom, one after the other. -/
def printBytes : List Byte → Output → Metered Fault Output
  | [], o => pure o
  | c :: cs, o => do
    let o ← saddch g c o
    printBytes cs o

/-- An atom. -/
def printAtom (x : Sexp) (o : Output) : Metered Fault Output :=
  match x with
  | .value aty val _ valUsed => do
    let o ← openQuote g aty o
    let o ← printVal g aty val valUsed o
    closeQuote g aty o
  | .blob bindata binlength => do
    let o ← sadd g (binHeader binlength) o
    if (bindata.getD []).length < binlength then lift (.error .blob)
    else do
      let o ← printBytes g ((bindata.getD []).take binlength) o
      saddch g space o
  | .list _ => pure o

/-- A step that may write outside a buffer. -/
def attempt {α : Type} (x : Metered Fault α) : Metered (Except Fault PrintLocals) α :=
  x.mapError .error

/-- `push`. -/
def printPush (data : List Sexp) (l : PrintLocals) : Metered (Except Fault PrintLocals) PrintLocals :=
  ⟨if 0 < l.stack.spare then [] else if g.alloc l.out.allocs then [.alloc z.stackLvl] else [],
    .ok (Sfsexp.printPush g.toSetup data l)⟩

def separate (xs : List Sexp) (o : Output) : Metered Fault Output :=
  if xs = [] then pure o else saddch g space o

/-- The paren that closes a list. -/
def printParen (l : PrintLocals) : Metered (Except Fault PrintLocals) PrintLocals :=
  if 0 < l.depth then do
    let out ← attempt (saddch g rparen l.out)
    pure { l with out := out, depth := l.depth - 1 }
  else pure l

/-- `top->data = top->data->next`, with a space when an element follows. -/
def printNext (l : PrintLocals) : Metered (Except Fault PrintLocals) PrintLocals :=
  match l.stack.levels with
  | [] => lift (.error (.ok l))
  | [] :: _ => lift (.error (.error .nullPointer))
  | (_ :: xs) :: rest => do
    let out ← attempt (separate g xs l.out)
    pure { l with out := out, stack := { l.stack with levels := xs :: rest } }

/-- The end of a chain. -/
def printClose (l : PrintLocals) : Metered (Except Fault PrintLocals) PrintLocals :=
  match l.stack.pop with
  | none => lift (.error (.error .nullPointer))
  | some (_, stack) => do
    let l ← printParen g { l with stack := stack }
    printNext g l

/-- One round of the loop. -/
def printHead (l : PrintLocals) : Metered (Except Fault PrintLocals) PrintLocals :=
  match l.stack.levels with
  | [] => lift (.error (.ok l))
  | [] :: _ => printClose g l
  | (.list elems :: _) :: _ => do
    let out ← attempt (saddch g lparen l.out)
    printPush z g elems { l with out := out, depth := l.depth + 1 }
  | (x :: _) :: _ => do
    let out ← attempt (printAtom g x l.out)
    printNext g { l with out := out }

/-- The loop that closes what is still open. -/
def closeParens : Nat → Output → Metered Fault Output
  | 0, o => pure o
  | depth + 1, o => do
    let o ← saddch g rparen o
    closeParens depth o

/-- What `print_sexp_cstr` does once it has its copy and its stack. -/
def printLoopOps (n : Nat) (fakehead x : Sexp) (l : PrintLocals) : List AllocOp :=
  let first := printPush z g [relink fakehead x] l
  let loop := Metered.loop (printHead z g) n (Sfsexp.printPush g.toSetup [relink fakehead x] l)
  first.ops ++ loop.1 ++
    match loop.2 with
    | some (.ok l) =>
      (closeParens g l.depth l.out).ops ++ destroyStack z l.stack ++ sexpTDeallocate z fakehead
    | _ => []

/-- `print_sexp_cstr`. -/
def printSexpCstr (n : Nat) (s : Option CString) (sx : List Sexp) (ss : Nat) (errno : ErrCode) :
    List AllocOp :=
  match sx with
  | [] => []
  | x :: _ =>
    let start := match s with
      | none => snewOps z g.toSetup ss ⟨0, errno⟩
      | some _ => []
    let out := match s with
      | none => snew g ss ⟨0, errno⟩
      | some s => { allocs := 0, errno := errno, str := some s }
    let fake := copySexp z g.toSetup [x.unlinked] out.toHeap
    start ++ fake.ops ++
      match fake.value with
      | .ok (fakehead :: _, h) =>
        if !g.alloc h.allocs then sexpTDeallocate z fakehead
        else
          .alloc z.faststack ::
            printLoopOps z g n fakehead x ⟨{ h.next with str := out.str }, makeStack, 0⟩
      | _ => []

end StringPrinter

section BufferPrinter

variable (g : Setup)

/-- `push`. -/
def fillPush (data : List Sexp) (l : FillLocals) : Metered FillStop FillLocals :=
  ⟨if 0 < l.stack.spare then [] else if g.alloc l.allocs then [.alloc z.stackLvl] else [],
    .ok (l.push g data)⟩

/-- An open paren: the children of the list come next. -/
def openList (elems : List Sexp) (l : FillLocals) : Metered FillStop FillLocals := do
  let l ← lift (FillLocals.withWindow { l with depth := l.depth + 1 } (l.toWindow.addChar lparen))
  fillPush z g elems l

/-- One round of the loop. It is left with the stack that the round began with: what the round pops
before it stops is still there as a level in reserve. -/
def fillHead (l : FillLocals) : Metered ((FillStop ⊕ FillLocals) × Faststack) FillLocals :=
  match l.stack.levels with
  | (.list elems :: _) :: _ => (openList z g elems l).mapError fun e => (.inl e, l.stack)
  | _ => (lift (Sfsexp.fillHead g l)).mapError fun e => (e, l.stack)

/-- What `print_sexp` does once it has its copy and its stack. Every way to leave it destroys both. -/
def fillLoopOps (n : Nat) (fakehead x : Sexp) (l : FillLocals) : List AllocOp :=
  let loop := Metered.loop (fillHead z g) n (l.push g [relink fakehead x])
  (fillPush z g [relink fakehead x] l).ops ++ loop.1 ++
    match loop.2 with
    | some (_, stack) => destroyStack z stack ++ sexpTDeallocate z fakehead
    | none => []

/-- `print_sexp`. -/
def printSexp (n : Nat) (buf : List Byte) (size : Nat) (sx : List Sexp) (errno : ErrCode) :
    List AllocOp :=
  match sx with
  | [] => []
  | x :: _ =>
    if size < 1 then []
    else
      let fake := copySexp z g [x.unlinked] ⟨0, errno⟩
      fake.ops ++
        match fake.value with
        | .ok (fakehead :: _, h) =>
          if !g.alloc h.allocs then sexpTDeallocate z fakehead
          else
            .alloc z.faststack :: fillLoopOps z g n fakehead x
              { toWindow := ⟨buf, 0, size⟩, toHeap := h.next, stack := makeStack, depth := 0 }
        | _ => []

end BufferPrinter

end Sfsexp.Limited
