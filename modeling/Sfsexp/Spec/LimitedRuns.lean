import Mathlib.Algebra.BigOperators.Group.Multiset.Basic
import Sfsexp.Model.Memory
import Sfsexp.Spec.Ownership

/-!
# Clients of the build that limits memory

What a client can do with the continuations, trees and strings that it has to give back, with the
calls to the allocator that this makes, and how `sexp_memory.c` counts these calls.
-/

namespace Sfsexp.Spec

open Sfsexp AllocOp

/-- What a client has and has to give back. -/
structure Holdings where
  conts : Multiset Pcont
  trees : Multiset (List Sexp)
  strings : Multiset CString

/-- The blocks behind it. -/
def held (z : Sizes) (s : Holdings) : Multiset Nat :=
  (s.conts.map fun cc => owned z cc.toRegs).sum + (s.trees.map (blocks z)).sum +
    (s.strings.map fun c => stringBlocks z (some c)).sum

/-- A value that may be `NULL`, as what a client has. -/
def toHold {α : Type} (x : Option α) : Multiset α := x.elim 0 fun a => {a}

/-- The arguments of a call of `cparse_sexp`, with what it finds around it. -/
structure ParseCall where
  setup : Setup
  str : Option (List Byte)
  len : Nat
  lc : Option Pcont

/-- The call is made in mode `PARSER_NORMAL`. -/
def NormalCall (k : ParseCall) : Prop := ∀ cc ∈ k.lc, cc.mode = .normal

/-- The call is not made in mode `PARSER_EVENTS_ONLY`, and no round of it ends a binary atom outside
of lists. -/
def NestedCall (k : ParseCall) : Prop :=
  (∀ cc ∈ k.lc, cc.mode ≠ .eventsOnly) ∧
    match k.str, k.lc with
    | none, _ => True
    | some buf, some cc => StaysNested ⟨k.setup, buf, k.len⟩ (cc.enter 0)
    | some buf, none =>
      ∀ cc allocs, initContinuation k.setup = (some cc, allocs) →
        StaysNested ⟨k.setup, buf, k.len⟩ (cc.enter allocs)

/-- One action of a client, with the calls that it makes to the allocator. Its calls of `cparse_sexp`
meet `C`. The parser, the printers and the strings get the memory they ask for. -/
inductive LimitedStep (C : ParseCall → Prop) (z : Sizes) : Holdings → List AllocOp → Holdings → Prop
  | initContinuation {s : Holdings} {g : Setup} {cc : Pcont} {allocs : Nat} (hg : g.Succeeds)
      (hrun : Sfsexp.initContinuation g = (some cc, allocs)) :
      LimitedStep C z s (Limited.initOps z g) { s with conts := cc ::ₘ s.conts }
  | configure {s : Holdings} {cc : Pcont} (mode : ParserMode) (handlers : Option Handlers) :
      LimitedStep C z { s with conts := cc ::ₘ s.conts } []
        { s with conts := { cc with mode := mode, eventHandlers := handlers } ::ₘ s.conts }
  | cparseSexp {s : Holdings} {g : Setup} {str : Option (List Byte)} {len : Nat} {lc : Option Pcont}
      {errno : ErrCode} {r : Return} (hg : g.Succeeds) (hcall : C ⟨g, str, len, lc⟩)
      (hrun : Sfsexp.cparseSexp g str len lc errno = .ret r) :
      LimitedStep C z { s with conts := toHold lc + s.conts } (Limited.cparseOps z g str len lc)
        { s with conts := r.cc ::ₘ s.conts, trees := r.cc.lastSexp ::ₘ s.trees }
  | printSexp {s : Holdings} {g : Setup} {n size : Nat} {buf : List Byte} {sx : List Sexp}
      {errno : ErrCode} {p : Filled} (hg : g.Succeeds) (hx : ∀ x ∈ sx.head?, Disposable x)
      (hrun : Sfsexp.printSexp g n buf size sx errno = .ret p) :
      LimitedStep C z s (Limited.printSexp z g n buf size sx errno) s
  | printSexpCstr {s : Holdings} {g : StringSetup} {n ss : Nat} {str : Option CString}
      {sx : List Sexp} {errno : ErrCode} {p : Printed} (hg : g.Succeeds)
      (hx : ∀ x ∈ sx.head?, Disposable x)
      (hrun : Sfsexp.printSexpCstr g n str sx ss errno = .ret p) :
      LimitedStep C z { s with strings := toHold str + s.strings }
        (Limited.printSexpCstr z g n str sx ss errno)
        { s with strings := toHold p.str + s.strings }
  | snew {s : Holdings} {g : StringSetup} (size : Nat) (heap : Heap) (hg : g.Succeeds) :
      LimitedStep C z s (Limited.snewOps z g.toSetup size heap)
        { s with strings := toHold (Sfsexp.snew g size heap).str + s.strings }
  | append {s : Holdings} {g : StringSetup} {a : List Byte} {o o' : Output} (hg : g.Succeeds)
      (hrun : Sfsexp.append g a o = .ok o') :
      LimitedStep C z { s with strings := toHold o.str + s.strings } (Limited.append g a o).ops
        { s with strings := toHold o'.str + s.strings }
  | strim {s : Holdings} {g : Setup} {o : Output} (hg : g.Succeeds) :
      LimitedStep C z { s with strings := toHold o.str + s.strings } (Limited.strimOps g o)
        { s with strings := toHold (Sfsexp.strim g o).str + s.strings }
  | sempty {s : Holdings} {o : Output} :
      LimitedStep C z { s with strings := toHold o.str + s.strings } []
        { s with strings := toHold (Sfsexp.sempty o).str + s.strings }
  | copySexp {s : Holdings} {g : Setup} {xs ys : List Sexp} {h h' : Heap} (hxs : SizedAll xs)
      (hrun : Sfsexp.copySexp g xs h = .ok (ys, h')) :
      LimitedStep C z s (Limited.copySexp z g xs h).ops { s with trees := ys ::ₘ s.trees }
  | newSexpList {s : Holdings} {g : Setup} {elems : List Sexp} {x : Sexp} {h h' : Heap}
      (hrun : Sfsexp.newSexpList g elems h = (some x, h')) :
      LimitedStep C z { s with trees := elems ::ₘ s.trees } (Limited.newSexpListOps z g h)
        { s with trees := [x] ::ₘ s.trees }
  | newSexpAtom {s : Holdings} {g : Setup} {buf : List Byte} {bs : Nat} {aty : AtomT}
      {x : Option Sexp} {h h' : Heap} (hrun : Sfsexp.newSexpAtom g buf bs aty h = .ok (x, h')) :
      LimitedStep C z s (Limited.newSexpAtomOps z g bs aty h)
        { s with trees := x.toList ::ₘ s.trees }
  | link {s : Holdings} {xs ys : List Sexp} :
      LimitedStep C z { s with trees := xs ::ₘ ys ::ₘ s.trees } []
        { s with trees := (xs ++ ys) ::ₘ s.trees }
  | destroySexp {s : Holdings} {xs : List Sexp} :
      LimitedStep C z { s with trees := xs ::ₘ s.trees } (Limited.destroySexp z xs) s
  | sdestroy {s : Holdings} {c : CString} :
      LimitedStep C z { s with strings := c ::ₘ s.strings } (Limited.sdestroy z c) s
  | destroyContinuation {s : Holdings} {cc : Pcont} :
      LimitedStep C z { s with conts := cc ::ₘ s.conts } (Limited.destroyContinuation z cc) s

/-- The runs of a client that starts with nothing, with the calls they make to the allocator. -/
inductive LimitedRun (C : ParseCall → Prop) (z : Sizes) : List AllocOp → Holdings → Prop
  | start : LimitedRun C z [] ⟨0, 0, 0⟩
  | step {s s' : Holdings} {ops more : List AllocOp} (h : LimitedRun C z ops s)
      (hstep : LimitedStep C z s more s') : LimitedRun C z (ops ++ more) s'

/-- The calls as `sexp_memory.c` serves them one after the other. Each asks for an amount and gets a
pointer. -/
inductive Served : List AllocOp → Ledger → Ledger → Prop
  | nil {m : Ledger} : Served [] m m
  | sexpMalloc {m m' : Ledger} {ops : List AllocOp} {size given p : Nat}
      (h : (m.sexpMalloc (.ofNat size) (some given)).1 = some p)
      (hrest : Served ops (m.sexpMalloc (.ofNat size) (some given)).2 m') :
      Served (.alloc size :: ops) m m'
  | sexpCalloc {m m' : Ledger} {ops : List AllocOp} {size given p : Nat}
      (h : (m.sexpCalloc 1 (.ofNat size) (some given)).1 = some p)
      (hrest : Served ops (m.sexpCalloc 1 (.ofNat size) (some given)).2 m') :
      Served (.alloc size :: ops) m m'
  | sexpRealloc {m m' : Ledger} {ops : List AllocOp} {size oldsize p given q : Nat}
      (h : (m.sexpRealloc p (.ofNat size) (.ofNat oldsize) (some given)).1 = some q)
      (hrest : Served ops (m.sexpRealloc p (.ofNat size) (.ofNat oldsize) (some given)).2 m') :
      Served (.realloc size oldsize :: ops) m m'
  | sexpFree {m m' : Ledger} {ops : List AllocOp} {size p : Nat}
      (hrest : Served ops (m.sexpFree p (.ofNat size)).2 m') : Served (.free size :: ops) m m'

/-- The live bytes stay below `2 ^ 64` during the calls. -/
def BytesFit : List AllocOp → Multiset Nat → Prop
  | [], live => live.sum < 2 ^ 64
  | op :: ops, live => live.sum < 2 ^ 64 ∧ ∀ live', op.run live = some live' → BytesFit ops live'

end Sfsexp.Spec
