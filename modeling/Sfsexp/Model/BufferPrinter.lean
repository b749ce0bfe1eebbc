import Sfsexp.Model.Printer

/-!
# `print_sexp`

The printer that fills a buffer of a fixed size. It walks the expression as `print_sexp_cstr` does,
counts the space that is left, and gives up when the last byte of the buffer is taken.

A write outside of the buffer, and a counter that would drop below zero, are undefined.
-/

namespace Sfsexp

/-- The buffer at `buf`, the cursor `b` as an offset into it, and `left`. -/
structure Window where
  cells : List Byte
  b : Nat
  left : Nat

/-- What a call leaves behind: `nulAt` is where it wrote the terminator, if it wrote one. -/
structure Filled where
  retval : Int
  cells : List Byte
  errno : ErrCode
  nulAt : Option Nat

/-- The locals of the printer, with what it shares with the rest of the program. -/
structure FillLocals extends Window, Heap where
  stack : Faststack
  depth : Nat

/-- The ways to leave the printer before its end: `full` is `out_of_space`. -/
inductive FillStop where
  | full (cells : List Byte) (b : Nat)
  | fault (f : Fault)

abbrev FillExec := Except FillStop

namespace Window

/-- The bytes `a` are written from `i` on. -/
def write (i : Nat) (a : List Byte) (w : Window) : FillExec Window :=
  if i + a.length ≤ w.cells.length then
    .ok { w with cells := w.cells.take i ++ a ++ w.cells.drop (i + a.length) }
  else .error (.fault .string)

/-- `b += n; left -= n;`. -/
def advance (n : Nat) (w : Window) : FillExec Window :=
  if n ≤ w.left then .ok { w with b := w.b + n, left := w.left - n }
  else .error (.fault .string)

/-- `out_of_space`. -/
def outOfSpace (w : Window) : FillExec Window :=
  match w.b with
  | 0 => .error (.fault .string)
  | b + 1 => do
    let w ← w.write b [nul]
    .error (.full w.cells b)

/-- `add_char_break_full`. -/
def addChar (c : Byte) (w : Window) : FillExec Window := do
  let w ← w.write w.b [c]
  let w ← w.advance 1
  if w.left = 0 then w.outOfSpace else .ok w

/-- The backslash in front of a byte that needs escaping. -/
def addEscape (aty : AtomT) (c : Byte) (w : Window) : FillExec Window :=
  if (c = dquote ∨ c = backslash) ∧ aty = .dquote then w.addChar backslash else .ok w

/-- The text of an atom. -/
def addText (aty : AtomT) : List Byte → Window → FillExec Window
  | [], _ => .error (.fault .atomBuffer)
  | c :: cs, w =>
    if c = nul ∨ w.left = 0 then .ok w
    else do
      let w ← w.addEscape aty c
      let w ← w.addChar c
      w.addText aty cs

/-- `%lu#` of a number. -/
def sizeText (n : Nat) : List Byte := (Nat.toDigits 10 n).map (fun d => d.toNat.toUInt8) ++ [hash]

/-- The size of a blob, written by `snprintf`, which cuts it off when it does not fit. -/
def addSize (n : Nat) (w : Window) : FillExec Window := do
  let w ← w.write w.b ((sizeText n).take (w.left - 1) ++ [nul])
  if (sizeText n).length ≥ w.left then w.outOfSpace else w.advance (sizeText n).length

/-- The bytes of a blob, copied at once. -/
def addBytes (bindata : Option (List Byte)) (binlength : Nat) (w : Window) : FillExec Window :=
  if 0 < binlength then
    if (bindata.getD []).length < binlength then .error (.fault .blob)
    else do
      let w ← w.write w.b ((bindata.getD []).take binlength)
      w.advance binlength
  else .ok w

/-- A binary atom. -/
def addBlob (bindata : Option (List Byte)) (binlength : Nat) (w : Window) : FillExec Window :=
  if 3 < w.left then do
    let w ← w.addChar hash
    let w ← w.addChar letterB
    let w ← w.addChar hash
    let w ← w.addSize binlength
    if w.left < binlength then w.outOfSpace
    else do
      let w ← w.addBytes bindata binlength
      w.addChar space
  else w.outOfSpace

/-- The text of an atom between its quotes. An atom without used bytes is taken for a binary one,
whose size is zero. -/
def addValue (aty : AtomT) (val : List Byte) (valUsed : Nat) (w : Window) : FillExec Window :=
  if aty ≠ .binary ∧ 0 < valUsed then w.addText aty val else w.addBlob none 0

/-- The quote in front of an atom. -/
def addOpenQuote (aty : AtomT) (w : Window) : FillExec Window :=
  if aty = .dquote then w.addChar dquote
  else if aty = .squote then w.addChar tick
  else .ok w

/-- The quote behind an atom. -/
def addCloseQuote (aty : AtomT) (w : Window) : FillExec Window :=
  if aty = .dquote ∧ 0 < w.left then w.addChar dquote else .ok w

/-- An atom. Nothing is printed for a list, which the loop deals with. -/
def addAtom (x : Sexp) (w : Window) : FillExec Window :=
  match x with
  | .value aty val _ valUsed => do
    let w ← w.addOpenQuote aty
    let w ← w.addValue aty val valUsed
    let w ← w.addCloseQuote aty
    if w.left = 0 then w.outOfSpace else .ok w
  | .blob bindata binlength => do
    let w ← w.addBlob bindata binlength
    if w.left = 0 then w.outOfSpace else .ok w
  | .list _ => .ok w

/-- A space in front of a further element. -/
def separate (xs : List Sexp) (w : Window) : FillExec Window :=
  if xs = [] then .ok w else w.addChar space

end Window

namespace FillLocals

/-- The rest of a round goes on with what was written. -/
def withWindow (l : FillLocals) (x : FillExec Window) : FillExec FillLocals :=
  x.map fun w => { l with toWindow := w }

/-- `push`; the printer goes on as before when it fails. -/
def push (g : Setup) (data : List Sexp) (l : FillLocals) : FillLocals :=
  if 0 < l.stack.spare then
    { l with stack := ⟨data :: l.stack.levels, l.stack.spare - 1, l.stack.height + 1⟩ }
  else if g.alloc l.allocs then
    { l with stack := ⟨data :: l.stack.levels, 0, l.stack.height + 1⟩, toHeap := l.toHeap.next }
  else { l with toHeap := l.toHeap.fail }

/-- `top->data = top->data->next`, with a space when an element follows. -/
def next (l : FillLocals) : FillExec FillLocals :=
  match l.stack.levels with
  | [] => .ok l
  | [] :: _ => .error (.fault .nullPointer)
  | (_ :: xs) :: rest =>
    withWindow { l with stack := { l.stack with levels := xs :: rest } } (l.toWindow.separate xs)

/-- The paren that closes a list. -/
def addParen (l : FillLocals) : FillExec FillLocals :=
  if 0 < l.depth then withWindow { l with depth := l.depth - 1 } (l.toWindow.addChar rparen)
  else .ok l

/-- The end of a chain: the list it belongs to is closed and passed over. -/
def close (l : FillLocals) : FillExec FillLocals :=
  match l.stack.pop with
  | none => .error (.fault .nullPointer)
  | some (_, stack) => do
    let l ← addParen { l with stack := stack }
    l.next

/-- An open paren: the children of the list come next. -/
def openList (g : Setup) (elems : List Sexp) (l : FillLocals) : FillExec FillLocals := do
  let l ← withWindow { l with depth := l.depth + 1 } (l.toWindow.addChar lparen)
  .ok (l.push g elems)

end FillLocals

open FillLocals in
/-- One round of the loop; it is left with its locals when the stack is empty. -/
def fillHead (g : Setup) (l : FillLocals) : Except (FillStop ⊕ FillLocals) FillLocals :=
  match l.stack.levels with
  | [] => .error (.inr l)
  | [] :: _ => l.close.mapError .inl
  | (.list elems :: _) :: _ => (l.openList g elems).mapError .inl
  | (x :: _) :: _ => (l.withWindow (l.toWindow.addAtom x) >>= next).mapError .inl

/-- The loop that closes what is still open. -/
def addParens : Nat → Window → FillExec Window
  | 0, w => .ok w
  | depth + 1, w => do
    let w ← w.addChar rparen
    addParens depth w

/-- The outcome of a call of the printer; `diverges` when its loop did not end in the bound. -/
inductive FillResult where
  | ret (p : Filled)
  | fault (f : Fault)
  | diverges

def FillResult.ofStop : FillStop → FillResult
  | .full cells b => .ret ⟨-1, cells, .bufferFull, some b⟩
  | .fault f => .fault f

/-- The terminator behind what was printed. -/
def endFill (size : Nat) (errno : ErrCode) (w : Window) : FillResult :=
  if w.left ≠ 0 then
    match w.write w.b [nul] with
    | .error e => .ofStop e
    | .ok w => .ret ⟨toInt (size - w.left), w.cells, errno, some w.b⟩
  else
    match w.outOfSpace with
    | .error (.full cells b) => .ret ⟨-1, cells, errno, some b⟩
    | .error (.fault f) => .fault f
    | .ok _ => .fault .string

/-- The end of the function, from what the loop was left with. -/
def fillFinish (size : Nat) : Option (FillStop ⊕ FillLocals) → FillResult
  | none => .diverges
  | some (.inl e) => .ofStop e
  | some (.inr l) =>
    match addParens l.depth l.toWindow with
    | .error e => .ofStop e
    | .ok w => endFill size l.errno w

/-- `print_sexp` with at most `n` rounds of its loop. `buf` is the memory of the buffer, and the
first element of the chain `sx` is printed. -/
def printSexp (g : Setup) (n : Nat) (buf : List Byte) (size : Nat) (sx : List Sexp)
    (errno : ErrCode) : FillResult :=
  match sx with
  | [] =>
    match (Window.mk buf 0 size).write 0 [nul] with
    | .error e => .ofStop e
    | .ok w => .ret ⟨0, w.cells, errno, some 0⟩
  | x :: _ =>
    if size < 1 then .ret ⟨-1, buf, errno, none⟩
    else
      match copySexp g [x.unlinked] ⟨0, errno⟩ with
      | .error f => .fault f
      | .ok ([], _) => .ret ⟨-1, buf, .memory, none⟩
      | .ok (fakehead :: _, h) =>
        if !g.alloc h.allocs then .ret ⟨-1, buf, .memory, none⟩
        else
          let l : FillLocals := { toWindow := ⟨buf, 0, size⟩, toHeap := h.next
                                  stack := makeStack, depth := 0 }
          fillFinish size (Loop.run (fillHead g) n (l.push g [relink fakehead x]))

end Sfsexp
