import Sfsexp.Lib.Chain
import Sfsexp.Model.Calls

/-!
# `parse_data_t`

The first and the last element of the chain of each level, as the parser keeps them with pointers.
A node is an index into the nodes allocated so far, `none` is `NULL`, and an operation gives `none`
when it dereferences `NULL`. `linkHead` runs the pointers beside the rounds of `cparse_sexp`.
-/

namespace Sfsexp

/-- The fields of `sexp_t` by which nodes hang together, with its type. -/
structure SexpNode where
  isList : Bool
  list : Option Nat
  next : Option Nat
  deriving DecidableEq, Repr

/-- `parse_data_t`. -/
structure ParseData where
  fst : Option Nat
  lst : Option Nat
  deriving DecidableEq, Repr

/-- The nodes, and the data of the levels of the stack from the top. -/
structure Links where
  nodes : List SexpNode
  levels : List ParseData
  deriving DecidableEq, Repr

namespace Links

/-- `sexp_t_allocate`, and the fields that are set at once. -/
def alloc (isList : Bool) (s : Links) : Links :=
  { s with nodes := s.nodes ++ [⟨isList, none, none⟩] }

/-- `a->next`. -/
def next (s : Links) (a : Nat) : Option Nat := s.nodes[a]?.bind (·.next)

/-- `p->next = a`. -/
def setNext (p : Option Nat) (a : Nat) (s : Links) : Option Links :=
  p.map fun p => { s with nodes := s.nodes.modify p fun n => { n with next := some a } }

/-- `p->list = sx`. -/
def setList (p sx : Option Nat) (s : Links) : Option Links :=
  p.map fun p => { s with nodes := s.nodes.modify p fun n => { n with list := sx } }

/-- The code that puts a new list behind the last element of the top level. -/
def attachList (a : Nat) (data : ParseData) (rest : List ParseData) (s : Links) : Option Links :=
  match data.lst with
  | some _ => do
    let s ← s.setNext data.lst a
    some { s with levels := { data with lst := some a } :: rest }
  | none => some { s with levels := ⟨some a, some a⟩ :: rest }

/-- Open paren. -/
def openList (s : Links) : Option Links :=
  let a := s.nodes.length
  let s := s.alloc true
  match s.levels with
  | [] => some { s with levels := [⟨none, none⟩, ⟨some a, some a⟩] }
  | data :: rest => do
    let s ← s.attachList a data rest
    some { s with levels := ⟨none, none⟩ :: s.levels }

/-- Close paren: pops the top level and writes its `fst` to `data->lst->list` of the one below. -/
def closeList (s : Links) : Option Links :=
  match s.levels with
  | [] => none
  | [_] => some { s with levels := [] }
  | top :: data :: rest => { s with levels := data :: rest }.setList data.lst top.fst

/-- The end of an atom: it is put behind the last element of the top level, if there is one. -/
def attach (s : Links) : Option Links :=
  let a := s.nodes.length
  let s := s.alloc false
  match s.levels with
  | [] => some s
  | data :: rest =>
    match data.fst with
    | none => some { s with levels := ⟨some a, some a⟩ :: rest }
    | some _ => do
      let s ← s.setNext data.lst a
      some { s with levels := { data with lst := some a } :: rest }

/-- The loops that pop until the stack is empty. -/
def popAll (s : Links) : Links := { s with levels := [] }

/-- The round at `l` leaves the loop: the buffer or the string ends here. -/
def leaves (env : Env) (l : Locals) : Bool :=
  l.t == env.len || (l.state != .s15 && env.buf[l.t]? == some nul)

/-- What the round at `l` does to the pointers. -/
def round (env : Env) (l : Locals) (s : Links) : Option Links :=
  if leaves env l then some (if l.depth = 0 ∧ 0 < l.elts then s.popAll else s)
  else
    match l.state with
    | .s2 => s.openList
    | .s3 =>
      if l.depth = 0 then some s
      else do
        let s ← s.closeList
        some (if l.depth = 1 then s.popAll else s)
    | _ =>
      match cparseHead env l with
      | .ok l' => if l.elts < l'.elts then s.attach else some s
      | .error _ => some s

end Links

/-- A round of `cparse_sexp` with its pointers. -/
def linkHead (env : Env) (m : Locals × Links) : Except (Stop × Links) (Locals × Links) :=
  match m.2.round env m.1 with
  | none => .error (.fault .nullPointer, m.2)
  | some s =>
    match cparseHead env m.1 with
    | .ok l => .ok (l, s)
    | .error stop => .error (stop, s)

/-- The continuations a client can hold, with the pointers behind them, when it calls the
tree-building parser and every allocation succeeds. -/
inductive LinkSession : Pcont → Links → Prop where
  | start {g : Setup} {cc : Pcont} {n : Nat} (h : initContinuation g = (some cc, n)) :
      LinkSession cc ⟨[], []⟩
  | configure {cc : Pcont} {s : Links} (h : LinkSession cc s) (mode : ParserMode)
      (handlers : Option Handlers) : LinkSession { cc with mode := mode, eventHandlers := handlers } s
  | call {cc : Pcont} {s s' s'' : Links} {k : Call} {allocs : Nat} {l : Locals} {r : Return}
      (h : LinkSession cc s) (hmode : cc.mode ≠ .eventsOnly) (halloc : k.setup.Succeeds)
      (hrun : Loop.Reaches (linkHead k.env) (cc.enter allocs, s) (l, s'))
      (hret : linkHead k.env (l, s') = .error (.ret r, s'')) : LinkSession r.cc s''

end Sfsexp
