import Sfsexp.Model.Nodes

/-!
# The printers on nodes

`print_sexp_cstr` and `print_sexp` on the fields that they read. What they do with the bytes they
print is the same as on elements.
-/

namespace Sfsexp.Nodes

/-- A binary atom. -/
def printBlob (g : StringSetup) (s : NodeFields) (o : Output) : Except Fault Output := do
  let o ← sadd g (binHeader s.binlength) o
  if (cellsAt s.bindata).length < s.binlength then .error .blob
  else do
    let o ← printBytes g ((cellsAt s.bindata).take s.binlength) o
    saddch g space o

/-- An atom between its quotes. -/
def printValue (g : StringSetup) (s : NodeFields) (o : Output) : Except Fault Output :=
  if s.aty = .binary then printBlob g s o else printVal g s.aty (cellsAt s.val) s.valUsed o

/-- An atom. -/
def printAtom (g : StringSetup) (s : NodeFields) (o : Output) : Except Fault Output := do
  let o ← openQuote g s.aty o
  let o ← printValue g s o
  closeQuote g s.aty o

/-- The locals of `print_sexp_cstr`. -/
structure PrintState where
  out : Output
  stack : PrintStack
  depth : Nat

/-- How the loop of `print_sexp_cstr` is left. -/
abbrev PrintExec := Except (Except Fault PrintState)

/-- A step that may write outside a buffer. -/
def attempt {α : Type} (x : Except Fault α) : PrintExec α :=
  match x with
  | .ok a => .ok a
  | .error f => .error (.error f)

/-- `push`; the printer goes on as before when it fails. -/
def printPush (g : Setup) (data : List Node) (l : PrintState) : PrintState :=
  if 0 < l.stack.spare then
    { l with stack := ⟨data :: l.stack.levels, l.stack.spare - 1, l.stack.height + 1⟩ }
  else if g.alloc l.out.allocs then
    { l with stack := ⟨data :: l.stack.levels, 0, l.stack.height + 1⟩
             out := { l.out with allocs := l.out.allocs + 1 } }
  else { l with out := { l.out.fail with str := l.out.str } }

/-- A space in front of a further element. -/
def separate (g : StringSetup) (xs : List Node) (o : Output) : Except Fault Output :=
  if xs = [] then .ok o else saddch g space o

/-- The paren that closes a list. -/
def printParen (g : StringSetup) (l : PrintState) : PrintExec PrintState :=
  if 0 < l.depth then do
    let out ← attempt (saddch g rparen l.out)
    .ok { l with out := out, depth := l.depth - 1 }
  else .ok l

/-- `top->data = top->data->next`, with a space when an element follows. -/
def printNext (g : StringSetup) (l : PrintState) : PrintExec PrintState :=
  match l.stack.levels with
  | [] => .error (.ok l)
  | [] :: _ => .error (.error .nullPointer)
  | (_ :: xs) :: rest => do
    let out ← attempt (separate g xs l.out)
    .ok { l with out := out, stack := { l.stack with levels := xs :: rest } }

/-- The end of a chain: the list it belongs to is closed and passed over. -/
def printClose (g : StringSetup) (l : PrintState) : PrintExec PrintState :=
  match l.stack.pop with
  | none => .error (.error .nullPointer)
  | some (_, stack) => do
    let l ← printParen g { l with stack := stack }
    printNext g l

/-- One round of the loop of `print_sexp_cstr`. -/
def printHead (g : StringSetup) (l : PrintState) : PrintExec PrintState :=
  match l.stack.levels with
  | [] => .error (.ok l)
  | [] :: _ => printClose g l
  | (.mk tdata list :: _) :: _ =>
    match tdata.ty with
    | .value => do
      let out ← attempt (printAtom g tdata l.out)
      printNext g { l with out := out }
    | .list => do
      let out ← attempt (saddch g lparen l.out)
      .ok (printPush g.toSetup list { l with out := out, depth := l.depth + 1 })

/-- The end of the function, from the locals that the loop left behind. -/
def printFinish (g : StringSetup) : Option (Except Fault PrintState) → PrintResult
  | none => .diverges
  | some (.error f) => .fault f
  | some (.ok l) =>
    match closeParens g l.depth l.out with
    | .error f => .fault f
    | .ok o => .ret ⟨match o.str with | none => 0 | some s => toInt s.curlen, o.str, o.errno⟩

/-- `print_sexp_cstr` with at most `n` rounds of its loop. The node that is allocated for `fakehead`
is found in `junk`. -/
def printSexpCstr (g : StringSetup) (junk : Nat → NodeFields) (n : Nat) (s : Option CString)
    (sx : List Node) (ss : Nat) (errno : ErrCode) : PrintResult :=
  match sx with
  | [] => .ret ⟨-1, s, errno⟩
  | x :: _ =>
    let out := match s with
      | none => snew g ss ⟨0, errno⟩
      | some s => { allocs := 0, errno := errno, str := some s }
    match copySexp g.toSetup junk [unlinked x] out.toHeap with
    | .error f => .fault f
    | .ok ([], _) => .ret ⟨-1, s, .memory⟩
    | .ok (fakehead :: _, h) =>
      if !g.alloc h.allocs then .ret ⟨-1, s, .memory⟩
      else
        let l : PrintState := ⟨{ h.next with str := out.str }, ⟨[], 0, 0⟩, 0⟩
        printFinish g
          (Loop.run (printHead g) n (printPush g.toSetup [relink fakehead x] l))

/-- The text of an atom between its quotes. Without used bytes it is taken for a binary one. -/
def addValue (s : NodeFields) (w : Window) : FillExec Window :=
  if s.aty ≠ .binary ∧ 0 < s.valUsed then w.addText s.aty (cellsAt s.val)
  else w.addBlob (s.bindata.map (·.cells)) s.binlength

/-- An atom. -/
def addAtom (s : NodeFields) (w : Window) : FillExec Window := do
  let w ← w.addOpenQuote s.aty
  let w ← addValue s w
  let w ← w.addCloseQuote s.aty
  if w.left = 0 then w.outOfSpace else .ok w

/-- The locals of `print_sexp`. -/
structure FillState extends Window, Heap where
  stack : PrintStack
  depth : Nat

namespace FillState

/-- The rest of a round goes on with what was written. -/
def withWindow (l : FillState) (x : FillExec Window) : FillExec FillState :=
  x.map fun w => { l with toWindow := w }

/-- `push`; the printer goes on as before when it fails. -/
def push (g : Setup) (data : List Node) (l : FillState) : FillState :=
  if 0 < l.stack.spare then
    { l with stack := ⟨data :: l.stack.levels, l.stack.spare - 1, l.stack.height + 1⟩ }
  else if g.alloc l.allocs then
    { l with stack := ⟨data :: l.stack.levels, 0, l.stack.height + 1⟩, toHeap := l.toHeap.next }
  else { l with toHeap := l.toHeap.fail }

/-- A space in front of a further element. -/
def separate (rest : List Node) (w : Window) : FillExec Window :=
  if rest = [] then .ok w else w.addChar space

/-- `top->data = top->data->next`, with a space when an element follows. -/
def next (l : FillState) : FillExec FillState :=
  match l.stack.levels with
  | [] => .ok l
  | [] :: _ => .error (.fault .nullPointer)
  | (_ :: xs) :: rest =>
    withWindow { l with stack := { l.stack with levels := xs :: rest } } (separate xs l.toWindow)

/-- The paren that closes a list. -/
def addParen (l : FillState) : FillExec FillState :=
  if 0 < l.depth then withWindow { l with depth := l.depth - 1 } (l.toWindow.addChar rparen)
  else .ok l

/-- The end of a chain: the list it belongs to is closed and passed over. -/
def close (l : FillState) : FillExec FillState :=
  match l.stack.pop with
  | none => .error (.fault .nullPointer)
  | some (_, stack) => do
    let l ← addParen { l with stack := stack }
    l.next

/-- An open paren: the children of the list come next. -/
def openList (g : Setup) (list : List Node) (l : FillState) : FillExec FillState := do
  let l ← withWindow { l with depth := l.depth + 1 } (l.toWindow.addChar lparen)
  .ok (l.push g list)

end FillState

open FillState in
/-- One round of the loop of `print_sexp`. -/
def fillHead (g : Setup) (l : FillState) : Except (FillStop ⊕ FillState) FillState :=
  match l.stack.levels with
  | [] => .error (.inr l)
  | [] :: _ => l.close.mapError .inl
  | (.mk tdata list :: _) :: _ =>
    match tdata.ty with
    | .value => (l.withWindow (addAtom tdata l.toWindow) >>= next).mapError .inl
    | .list => (l.openList g list).mapError .inl

/-- The end of the function, from what the loop was left with. -/
def fillFinish (size : Nat) : Option (FillStop ⊕ FillState) → FillResult
  | none => .diverges
  | some (.inl e) => .ofStop e
  | some (.inr l) =>
    match addParens l.depth l.toWindow with
    | .error e => .ofStop e
    | .ok w => endFill size l.errno w

/-- `print_sexp` with at most `n` rounds of its loop. -/
def printSexp (g : Setup) (junk : Nat → NodeFields) (n : Nat) (buf : List Byte) (size : Nat)
    (sx : List Node) (errno : ErrCode) : FillResult :=
  match sx with
  | [] =>
    match (Window.mk buf 0 size).write 0 [nul] with
    | .error e => .ofStop e
    | .ok w => .ret ⟨0, w.cells, errno, some 0⟩
  | x :: _ =>
    if size < 1 then .ret ⟨-1, buf, errno, none⟩
    else
      match copySexp g junk [unlinked x] ⟨0, errno⟩ with
      | .error f => .fault f
      | .ok ([], _) => .ret ⟨-1, buf, .memory, none⟩
      | .ok (fakehead :: _, h) =>
        if !g.alloc h.allocs then .ret ⟨-1, buf, .memory, none⟩
        else
          let l : FillState := { toWindow := ⟨buf, 0, size⟩, toHeap := h.next
                                 stack := ⟨[], 0, 0⟩, depth := 0 }
          fillFinish size (Loop.run (fillHead g) n (l.push g [relink fakehead x]))

end Sfsexp.Nodes
