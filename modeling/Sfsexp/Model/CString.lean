import Sfsexp.Model.Locals

/-!
# `CSTRING`

The growing strings that the printers write to. An operation that cannot allocate gives back a
`NULL` string, and every operation on `NULL` does nothing.
-/

namespace Sfsexp

/-- `CSTRING`. -/
structure CString where
  base : List Byte
  len : Nat
  curlen : Nat

/-- The setup of the code that works on strings, with `cstring_growsize`. -/
structure StringSetup extends Setup where
  growsize : Nat
  growsize_pos : 0 < growsize

/-- `sgrowsize`. -/
def sgrowsize (s : Nat) (g : StringSetup) : StringSetup :=
  if h : 0 < s then { g with growsize := s, growsize_pos := h } else g

/-- The default sizes, zeroed memory and no failures. -/
def StringSetup.plain : StringSetup := { Setup.plain with growsize := 8192, growsize_pos := by decide }

/-- The allocations asked for so far, and `sexp_errno`. -/
structure Heap where
  allocs : Nat
  errno : ErrCode

/-- A string and what its operations share with the rest of the program. -/
structure Output extends Heap where
  str : Option CString

def Heap.next (h : Heap) : Heap := { h with allocs := h.allocs + 1 }

/-- An allocation failed. -/
def Heap.fail (h : Heap) : Heap := ⟨h.allocs + 1, .memory⟩

/-- `snew`. -/
def snew (g : StringSetup) (s : Nat) (h : Heap) : Output :=
  if !g.alloc h.allocs then { h.fail with str := none }
  else if !g.alloc h.next.allocs then { h.next.fail with str := none }
  else { h.next.next with str := some ⟨List.replicate s nul, s, 0⟩ }

/-- Writes `a` behind the string and a NUL behind `a`. -/
def CString.write (a : List Byte) (s : CString) : Except Fault CString :=
  if s.curlen + a.length < s.base.length then
    .ok { s with
      base := s.base.take s.curlen ++ a ++ nul :: s.base.drop (s.curlen + a.length + 1)
      curlen := s.curlen + a.length }
  else .error .string

/-- What `sadd` and `saddch` do with the bytes they append. -/
def append (g : StringSetup) (a : List Byte) (o : Output) : Except Fault Output :=
  match o.str with
  | none => .ok o
  | some s =>
    if s.curlen + a.length ≥ s.len then
      if g.alloc o.allocs then do
        let s ← CString.write a { s with base := s.base ++ g.fresh (g.growsize + a.length)
                                         len := s.len + (g.growsize + a.length) }
        .ok { o.next with str := some s }
      else .ok { o.fail with str := none }
    else do
      let s ← s.write a
      .ok { o with str := some s }

/-- `sadd`. -/
def sadd (g : StringSetup) (a : List Byte) (o : Output) : Except Fault Output :=
  append g (cstr a) o

/-- `saddch`. -/
def saddch (g : StringSetup) (a : Byte) (o : Output) : Except Fault Output := append g [a] o

/-- `strim`. -/
def strim (g : Setup) (o : Output) : Output :=
  match o.str with
  | none => o
  | some s =>
    if s.len = s.curlen + 1 then o
    else if g.alloc o.allocs then
      { o.next with
        str := some ⟨s.base.take (s.curlen + 1) ++ g.fresh (s.curlen + 1 - s.len), s.curlen + 1,
          s.curlen⟩ }
    else { o.fail with str := none }

/-- `sempty`. -/
def sempty (o : Output) : Output := { o with str := o.str.map fun s => { s with curlen := 0 } }

/-- `toCharPtr`, with the cells that are found at the pointer. -/
def toCharPtr (o : Output) : Option (List Byte) := o.str.map (·.base)

/-- What a client does with a string. The data it appends is free of NUL bytes. -/
inductive StringOp where
  | sgrowsize (s : Nat)
  | sadd (a : List Byte)
  | saddch (a : Byte) (ha : a ≠ nul)
  | strim
  | sempty

/-- One operation of a client. -/
def StringOp.run : StringOp → StringSetup × Output → Except Fault (StringSetup × Output)
  | .sgrowsize s, (g, o) => .ok (Sfsexp.sgrowsize s g, o)
  | .sadd a, (g, o) => (Sfsexp.sadd g a o).map (g, ·)
  | .saddch a _, (g, o) => (Sfsexp.saddch g a o).map (g, ·)
  | .strim, (g, o) => .ok (g, Sfsexp.strim g.toSetup o)
  | .sempty, (g, o) => .ok (g, Sfsexp.sempty o)

/-- The operations one after the other. -/
def runOps : List StringOp → StringSetup × Output → Except Fault (StringSetup × Output)
  | [], c => .ok c
  | op :: ops, c =>
    match op.run c with
    | .ok c => runOps ops c
    | .error f => .error f

end Sfsexp
