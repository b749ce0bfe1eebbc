import Sfsexp.Model.BufferPrinter
import Sfsexp.Model.Search

/-!
# The nodes behind an expression

A `sexp_t` field by field. A node that `sexp_t_allocate` hands out holds anything but in `next` and
`list`, which are `NULL`; the code that builds an element in it writes some of the other fields. The
functions of the library are modelled once more, on the fields they read.

A pointer that is not `NULL` is a `Block`: the address, and the bytes that can be read from there on.
-/

namespace Sfsexp

structure Block where
  addr : Nat
  cells : List Byte
  deriving DecidableEq, Repr

/-- `elt_t`. -/
inductive EltT where
  | value
  | list
  deriving DecidableEq, Repr

/-- The fields of `sexp_t` but for `next` and `list`. -/
structure NodeFields where
  ty : EltT
  val : Option Block
  valAllocated : Nat
  valUsed : Nat
  aty : AtomT
  bindata : Option Block
  binlength : Nat
  deriving DecidableEq, Repr

/-- A `sexp_t`, with the chain that its `list` field starts. -/
inductive Node where
  | mk (fields : NodeFields) (list : List Node)

/-- What state 2 of the parser makes of a fresh node. -/
def listNode (junk : NodeFields) : NodeFields := { junk with ty := .list }

/-- What states 4, 5 and 9 make of a fresh node. -/
def textNode (junk : NodeFields) (val : Block) (valAllocated valUsed : Nat) (aty : AtomT) :
    NodeFields :=
  { junk with ty := .value, val := some val, valAllocated := valAllocated, valUsed := valUsed
              aty := aty }

/-- What state 15 makes of a fresh node. -/
def blobNode (junk : NodeFields) (bindata : Option Block) (binlength : Nat) : NodeFields :=
  { junk with ty := .value, bindata := bindata, binlength := binlength, aty := .binary }

mutual
/-- The node behind an element of the parser. The fresh node at the position `p` held `junk p`, and
the block that the element owns is at `addr p`. -/
def buildNode (addr : Position → Nat) (junk : Position → NodeFields) : Sexp → Node
  | .value aty val valAllocated valUsed =>
    .mk (textNode (junk []) ⟨addr [], val⟩ valAllocated valUsed aty) []
  | .blob bindata binlength =>
    .mk (blobNode (junk []) (bindata.map (Block.mk (addr []))) binlength) []
  | .list elems => .mk (listNode (junk [])) (buildNodes addr junk elems)

def buildNodes (addr : Position → Nat) (junk : Position → NodeFields) : List Sexp → List Node
  | [] => []
  | x :: xs =>
    buildNode (fun p => addr (0 :: p)) (fun p => junk (0 :: p)) x ::
      buildNodes (fun p => addr (bump p)) (fun p => junk (bump p)) xs
end

/-- The bytes at a pointer. -/
def cellsAt (p : Option Block) : List Byte := (p.map (·.cells)).getD []

/-- `strcmp` gives zero. It reads on until the strings differ or end. -/
def sameString : List Byte → List Byte → Except Fault Bool
  | c :: cs, d :: ds =>
    if c = d then if c = nul then .ok true else sameString cs ds
    else .ok false
  | _, _ => .error .string

/-- `val != NULL && strcmp(val, name) == 0`. -/
def NodeFields.named (name : List Byte) (s : NodeFields) : Except Fault Bool :=
  match s.val with
  | none => .ok false
  | some b => sameString b.cells name

/-- A block that was handed to `sexp_free`, with the size it was given. -/
structure Freed where
  addr : Nat
  size : Nat
  deriving DecidableEq, Repr

namespace Nodes

mutual
/-- `find_sexp` on a chain. -/
def findSexp (name : List Byte) : List Node → Except Fault (Option Position)
  | [] => .ok none
  | start :: next =>
    match findElement name start with
    | .error f => .error f
    | .ok (some p) => .ok (some (0 :: p))
    | .ok none => (findSexp name next).map (Option.map bump)

/-- The element itself, or what `find_sexp` finds in its `list`. -/
def findElement (name : List Byte) : Node → Except Fault (Option Position)
  | .mk s list =>
    match s.ty with
    | .list => findSexp name list
    | .value => (s.named name).map fun same => if same then some [] else none
end

/-- The first loop of `bfs_find_sexp`. -/
def firstNamed (str : List Byte) : List Node → Except Fault (Option Nat)
  | [] => .ok none
  | .mk t _ :: ts =>
    match if t.ty = .value then t.named str else .ok false with
    | .error f => .error f
    | .ok true => .ok (some 0)
    | .ok false => (firstNamed str ts).map (Option.map (· + 1))

mutual
/-- `bfs_find_sexp` on the `list` of a node. -/
def bfsChildren (str : List Byte) : Node → Except Fault (Option Position)
  | .mk t list =>
    match t.ty with
    | .value => .ok none
    | .list =>
      match firstNamed str list with
      | .error f => .error f
      | .ok (some i) => .ok (some [i])
      | .ok none => bfsLists str list

/-- The second loop. -/
def bfsLists (str : List Byte) : List Node → Except Fault (Option Position)
  | [] => .ok none
  | t :: ts =>
    match bfsChildren str t with
    | .error f => .error f
    | .ok (some p) => .ok (some (0 :: p))
    | .ok none => (bfsLists str ts).map (Option.map bump)
end

/-- `bfs_find_sexp`. -/
def bfsFindSexp (str : List Byte) (sx : List Node) : Except Fault (Option Position) :=
  match firstNamed str sx with
  | .error f => .error f
  | .ok (some i) => .ok (some [i])
  | .ok none => bfsLists str sx

/-- What `destroy_sexp` frees of a value. -/
def ownFrees (s : NodeFields) : List Freed :=
  match if s.aty = .binary then s.bindata else none with
  | some b => [⟨b.addr, s.binlength⟩]
  | none =>
    match s.val with
    | some b => [⟨b.addr, s.valAllocated⟩]
    | none => []

mutual
/-- The blocks that `destroy_sexp` frees, in order. The nodes themselves go to the cache. -/
def destroySexp : List Node → List Freed
  | [] => []
  | s :: next => destroyElement s ++ destroySexp next

def destroyElement : Node → List Freed
  | .mk s list =>
    match s.ty with
    | .list => destroySexp list
    | .value => ownFrees s
end

/-- The fields that `copy_sexp` sets at first. -/
def cleared (ty : EltT) (new : NodeFields) : NodeFields :=
  { new with valAllocated := 0, valUsed := 0, val := none, bindata := none, binlength := 0, ty := ty }

/-- The text of the copied atom. A new block is known by the number of its request. -/
def copyText (g : Setup) (s new : NodeFields) (h : Heap) :
    Except Fault (Option NodeFields × Heap) :=
  match s.val with
  | none =>
    if 0 < s.valUsed ∨ 0 < s.valAllocated then .ok (none, { h with errno := .badContent })
    else .ok (some { new with valUsed := s.valUsed, valAllocated := s.valAllocated, val := none }, h)
  | some b =>
    if !g.alloc h.allocs then .ok (none, h.fail)
    else if s.valUsed ≤ s.valAllocated ∧ s.valUsed ≤ b.cells.length then
      .ok (some { new with
        valUsed := s.valUsed, valAllocated := s.valAllocated
        val := some ⟨h.allocs,
          b.cells.take s.valUsed ++ List.replicate (s.valAllocated - s.valUsed) nul⟩ }, h.next)
    else .error .atomBuffer

/-- The bytes of the copied blob. -/
def copyBlob (g : Setup) (s new : NodeFields) (h : Heap) :
    Except Fault (Option NodeFields × Heap) :=
  match s.bindata with
  | none => .ok (none, { h with errno := if 0 < s.binlength then .badContent else .memory })
  | some b =>
    if !g.alloc h.allocs then .ok (none, h.fail)
    else if s.binlength ≤ b.cells.length then
      .ok (some { new with
        binlength := s.binlength, bindata := some ⟨h.allocs, b.cells.take s.binlength⟩ }, h.next)
    else .error .blob

/-- The part of `copy_sexp` that deals with a value. -/
def copyValue (g : Setup) (s new : NodeFields) (h : Heap) :
    Except Fault (Option NodeFields × Heap) :=
  if s.aty = .binary then copyBlob g s { new with aty := s.aty } h
  else copyText g s { new with aty := s.aty } h

mutual
/-- `copy_sexp` on one node, up to its `next` pointer. The node of the `n`-th request held `junk n`. -/
def copyElement (g : Setup) (junk : Nat → NodeFields) :
    Node → Heap → Except Fault (Option Node × Heap)
  | .mk s list, h =>
    if !g.alloc h.allocs then .ok (none, h.fail)
    else
      match s.ty with
      | .value =>
        (copyValue g s (cleared .value (junk h.allocs)) h.next).map fun (new, h) =>
          (new.map (.mk · []), h)
      | .list =>
        (copySexp g junk list h.next).map fun (list, h') =>
          (some (.mk (cleared .list (junk h.allocs)) list), h')

/-- `copy_sexp`. -/
def copySexp (g : Setup) (junk : Nat → NodeFields) :
    List Node → Heap → Except Fault (List Node × Heap)
  | [], h => .ok ([], h)
  | s :: next, h =>
    match copyElement g junk s h with
    | .error f => .error f
    | .ok (none, h) => .ok ([], h)
    | .ok (some s, h) => (copySexp g junk next h).map fun (next, h) => (s :: next, h)
end

/-- `tmp`: the node without its `list`. -/
def unlinked : Node → Node
  | .mk s _ => .mk s []

/-- `fakehead->list = sx->list`. -/
def relink : Node → Node → Node
  | .mk fakehead _, .mk _ list => .mk fakehead list

/-- The stack of a printer. A level holds what is left of a chain. -/
structure PrintStack where
  levels : List (List Node)
  spare : Nat
  height : Nat

/-- `pop`. -/
def PrintStack.pop (s : PrintStack) : Option (List Node × PrintStack) :=
  match s.levels, s.height with
  | data :: rest, h + 1 => some (data, ⟨rest, s.spare + 1, h⟩)
  | _, _ => none

end Nodes

end Sfsexp
