import Sfsexp.Lib.LevelStack
import Sfsexp.Model.Sexp

/-!
# The caches of `sexp_t` and `parse_data_t` nodes

`sexp_t_allocate`, `sexp_t_deallocate`, `pd_allocate`, `pd_deallocate` and `sexp_cleanup` in the
build with caches. Both caches are stacks of `faststack.c`. A node is known by the number of the
`malloc` it came from, and each kind of node is numbered on its own. The parameter `alloc` says
which of the calls of `malloc` succeed, in order, those of `make_stack` and `push` included.
-/

namespace Sfsexp

/-- The fields of a `sexp_t` that its allocator reads or writes. -/
structure SexpFields where
  isValue : Bool
  val : Option Nat
  list : Option Nat
  next : Option Nat
  deriving DecidableEq, Repr

/-- One cache, the number of nodes obtained from `malloc` for it, and those given back by `free`. -/
structure NodePool where
  cache : Option (LevelStack Nat)
  made : Nat
  freed : List Nat

namespace NodePool

def malloc (granted : Bool) (p : NodePool) : Option Nat × NodePool :=
  if granted then (some p.made, { p with made := p.made + 1 }) else (none, p)

/-- The body of both allocators; `n` allocations were asked for before. -/
def allocate (alloc : Nat → Bool) (n : Nat) (p : NodePool) : Option Nat × NodePool × Nat :=
  match p.cache with
  | none =>
    if alloc n then
      let (x, p) := malloc (alloc (n + 1)) { p with cache := some .empty }
      (x, p, n + 2)
    else (none, p, n + 1)
  | some s =>
    match s.pop with
    | some (x, s) => (some x, { p with cache := some s }, n)
    | none =>
      let (x, p) := malloc (alloc n) p
      (x, p, n + 1)

/-- `cache = push(cache, x)`: the cache is `NULL` when `push` fails. -/
def pushCache (alloc : Nat → Bool) (n : Nat) (s : LevelStack Nat) (x : Nat) (p : NodePool) :
    NodePool × Nat :=
  ({ p with cache := s.push (alloc n) x }, if s.Full then n + 1 else n)

/-- What both deallocators do with the node itself. -/
def deallocate (alloc : Nat → Bool) (n : Nat) (x : Nat) (p : NodePool) : NodePool × Nat :=
  match p.cache with
  | none =>
    if alloc n then p.pushCache alloc (n + 1) .empty x
    else ({ p with freed := p.freed ++ [x] }, n + 1)
  | some s => p.pushCache alloc n s x

/-- What `sexp_cleanup` does to a cache: it frees the data of the levels from the top down. -/
def cleanup (p : NodePool) : NodePool :=
  match p.cache with
  | none => p
  | some s => { p with cache := none, freed := p.freed ++ s.content.reverse }

end NodePool

/-- The globals of the allocator, the nodes' fields and the atom buffers that were freed. -/
structure Pools where
  sexps : NodePool
  pds : NodePool
  fields : Nat → SexpFields
  freedVals : List Nat
  errno : ErrCode
  allocs : Nat

namespace Pools

def setFields (s : Nat) (f : SexpFields) (w : Pools) : Pools :=
  { w with fields := fun t => if t = s then f else w.fields t }

/-- `sexp_t_allocate`. A node from `malloc` holds `junk` but for `next` and `list`. -/
def sexpTAllocate (alloc : Nat → Bool) (junk : Nat → SexpFields) (w : Pools) :
    Option Nat × Pools :=
  let (x, p, n) := w.sexps.allocate alloc w.allocs
  let errno := if x.isNone then .memory else w.errno
  let w' := { w with sexps := p, allocs := n, errno := errno }
  if p.made = w.sexps.made then (x, w')
  else (x, w'.setFields w.sexps.made { junk w.sexps.made with list := none, next := none })

/-- The buffer that is freed together with a node. -/
def SexpFields.owned (f : SexpFields) : List Nat := if f.isValue then f.val.toList else []

/-- `sexp_t_deallocate`. -/
def sexpTDeallocate (alloc : Nat → Bool) (s : Option Nat) (w : Pools) : Pools :=
  match s with
  | none => w
  | some s =>
    let (p, n) := w.sexps.deallocate alloc w.allocs s
    let errno := if p.cache.isNone then .memory else w.errno
    let w' := { w with sexps := p, allocs := n, errno := errno
                       freedVals := w.freedVals ++ SexpFields.owned (w.fields s) }
    -- a node that is freed at once keeps its fields
    if p.freed = w.sexps.freed then
      w'.setFields s { w.fields s with val := none, list := none, next := none }
    else w'

/-- `pd_allocate`. -/
def pdAllocate (alloc : Nat → Bool) (w : Pools) : Option Nat × Pools :=
  let (x, p, n) := w.pds.allocate alloc w.allocs
  (x, { w with pds := p, allocs := n, errno := if x.isNone then .memory else w.errno })

/-- `pd_deallocate`. -/
def pdDeallocate (alloc : Nat → Bool) (x : Nat) (w : Pools) : Pools :=
  let (p, n) := w.pds.deallocate alloc w.allocs x
  { w with pds := p, allocs := n, errno := if p.cache.isNone then .memory else w.errno }

/-- `sexp_cleanup`. -/
def sexpCleanup (w : Pools) : Pools := { w with pds := w.pds.cleanup, sexps := w.sexps.cleanup }

/-- Before the first call. -/
def start (errno : ErrCode) (fields : Nat → SexpFields) : Pools :=
  ⟨⟨none, 0, []⟩, ⟨none, 0, []⟩, fields, [], errno, 0⟩

end Pools

/-- What a client asks for. It may also write the fields of a node that it holds. -/
inductive PoolRequest where
  | sexpTAllocate
  | sexpTDeallocate (s : Option Nat)
  | pdAllocate
  | pdDeallocate (p : Nat)
  | sexpCleanup
  | setFields (s : Nat) (f : SexpFields)

/-- The allocator and the nodes its client holds. -/
structure PoolClient extends Pools where
  heldSexps : List Nat
  heldPds : List Nat

/-- One request; `none` when the client does not hold the node it names. -/
def PoolClient.step (alloc : Nat → Bool) (junk : Nat → SexpFields) :
    PoolRequest → PoolClient → Option PoolClient
  | .sexpTAllocate, c =>
    let (x, w) := c.toPools.sexpTAllocate alloc junk
    some { c with toPools := w, heldSexps := c.heldSexps ++ x.toList }
  | .sexpTDeallocate none, c => some { c with toPools := c.toPools.sexpTDeallocate alloc none }
  | .sexpTDeallocate (some s), c =>
    if s ∈ c.heldSexps then
      some { c with toPools := c.toPools.sexpTDeallocate alloc (some s)
                    heldSexps := c.heldSexps.erase s }
    else none
  | .pdAllocate, c =>
    let (x, w) := c.toPools.pdAllocate alloc
    some { c with toPools := w, heldPds := c.heldPds ++ x.toList }
  | .pdDeallocate p, c =>
    if p ∈ c.heldPds then
      some { c with toPools := c.toPools.pdDeallocate alloc p, heldPds := c.heldPds.erase p }
    else none
  | .sexpCleanup, c => some { c with toPools := c.toPools.sexpCleanup }
  | .setFields s f, c =>
    if s ∈ c.heldSexps then some { c with toPools := c.toPools.setFields s f } else none

/-- The states of a client all of whose requests met `C`. -/
inductive PoolRun (alloc : Nat → Bool) (junk : Nat → SexpFields)
    (C : PoolRequest → PoolClient → Prop) : PoolClient → Prop where
  | start (errno : ErrCode) (fields : Nat → SexpFields) :
      PoolRun alloc junk C ⟨.start errno fields, [], []⟩
  | request {c c' : PoolClient} {r : PoolRequest} (h : PoolRun alloc junk C c) (hr : C r c)
      (hstep : c.step alloc junk r = some c') : PoolRun alloc junk C c'

end Sfsexp
