import Sfsexp.Model.Printer

/-!
# `sexp_memory.c`

The wrappers around the system allocator in the build that limits memory. `size_t` is `UInt64`, so
sums, products and differences wrap around as in C. What the system allocator does is a parameter of
each call: the address it gives, `none` for `NULL`. It keeps the blocks that are live, with the sizes
they really have. What a client holds is kept apart from that, and read off the answers it gets.
-/

namespace Sfsexp

/-- Blocks of memory: the address and the size of each. -/
abbrev Blocks := List (Nat × Nat)

/-- The blocks but the one at `p`. -/
def Blocks.without (p : Nat) (live : Blocks) : Blocks := live.eraseP fun b => b.1 == p

/-- The number of bytes in the blocks. -/
def Blocks.total (live : Blocks) : Nat := (live.map (·.2)).sum

/-- The globals of `sexp_memory.c`, `sexp_errno`, and the blocks of the system allocator that are
live. -/
structure Ledger where
  maxMemory : UInt64
  usedMemory : UInt64
  errno : ErrCode
  live : Blocks

namespace Ledger

/-- Before the first call. -/
def start (errno : ErrCode) : Ledger := ⟨32 * 1024 * 1024, 0, errno, []⟩

/-- `set_sexp_max_memory`, with the `int` it returns. -/
def setSexpMaxMemory (newsize : UInt64) (m : Ledger) : Int × Ledger :=
  if newsize > 0 then
    if newsize < m.usedMemory then (-1, { m with errno := .badParam })
    else (toInt newsize.toNat, { m with maxMemory := newsize })
  else (-1, { m with errno := .badParam })

/-- What the wrappers that allocate have in common: the test against the limit, the call of the system
allocator, and the counter. `served` are the live blocks once there is one at the given address. -/
def request (amount : UInt64) (given : Option Nat) (served : Nat → Blocks) (m : Ledger) :
    Option Nat × Ledger :=
  if m.usedMemory + amount > m.maxMemory then (none, { m with errno := .memLimit })
  else
    match given with
    | none => (none, m)
    | some p => (some p, { m with usedMemory := m.usedMemory + amount, live := served p })

/-- `sexp_malloc`. -/
def sexpMalloc (size : UInt64) (given : Option Nat) (m : Ledger) : Option Nat × Ledger :=
  m.request size given fun p => (p, size.toNat) :: m.live

/-- `sexp_calloc`. -/
def sexpCalloc (count size : UInt64) (given : Option Nat) (m : Ledger) : Option Nat × Ledger :=
  m.request (size * count) given fun p => (p, count.toNat * size.toNat) :: m.live

/-- `sexp_free`, with what it prints to `stderr`. -/
def sexpFree (p : Nat) (size : UInt64) (m : Ledger) : Option String × Ledger :=
  if m.usedMemory < size then
    (some "ERROR: sexp_free called too many times!\n", { m with live := m.live.without p })
  else (none, { m with usedMemory := m.usedMemory - size, live := m.live.without p })

/-- `sexp_realloc`. The block may move. -/
def sexpRealloc (p : Nat) (size oldsize : UInt64) (given : Option Nat) (m : Ledger) :
    Option Nat × Ledger :=
  m.request (size - oldsize) given fun q => (q, size.toNat) :: m.live.without p

end Ledger

/-- The calls into `sexp_memory.c`. -/
inductive MemoryCall where
  | setSexpMaxMemory (newsize : UInt64)
  | sexpMalloc (size : UInt64)
  | sexpCalloc (count size : UInt64)
  | sexpFree (p : Nat) (size : UInt64)
  | sexpRealloc (p : Nat) (size oldsize : UInt64)

/-- What a call returns, or prints. -/
inductive MemoryAnswer where
  | limit (value : Int)
  | pointer (p : Option Nat)
  | freed (stderr : Option String)
  deriving DecidableEq, Repr

namespace Ledger

/-- One call; `given` is what the system allocator gives when it is asked. -/
def call (r : MemoryCall) (given : Option Nat) (m : Ledger) : MemoryAnswer × Ledger :=
  match r with
  | .setSexpMaxMemory newsize => (m.setSexpMaxMemory newsize).map .limit id
  | .sexpMalloc size => (m.sexpMalloc size given).map .pointer id
  | .sexpCalloc count size => (m.sexpCalloc count size given).map .pointer id
  | .sexpFree p size => (m.sexpFree p size).map .freed id
  | .sexpRealloc p size oldsize => (m.sexpRealloc p size oldsize given).map .pointer id

/-- The bytes that are live if the system allocator does what the call asks of it. -/
def totalAfter (r : MemoryCall) (m : Ledger) : Nat :=
  match r with
  | .sexpMalloc size => m.live.total + size.toNat
  | .sexpCalloc count size => m.live.total + count.toNat * size.toNat
  | .sexpRealloc _ size oldsize => m.live.total - oldsize.toNat + size.toNat
  | _ => m.live.total

/-- The addresses that are taken while the call is served. -/
def taken (r : MemoryCall) (m : Ledger) : List Nat :=
  match r with
  | .sexpRealloc p _ _ => (m.live.without p).map (·.1)
  | _ => m.live.map (·.1)

/-- The system allocator gives an address that is not taken, and none when the live bytes would reach
`2 ^ 64`. -/
def Honest (r : MemoryCall) (given : Option Nat) (m : Ledger) : Prop :=
  ∀ p, given = some p → p ∉ m.taken r ∧ m.totalAfter r < 2 ^ 64

end Ledger

/-- A client passes blocks that it holds with their current sizes, and gives a block no size of 0. -/
def Promised (r : MemoryCall) (held : Blocks) : Prop :=
  match r with
  | .sexpFree p size => (p, size.toNat) ∈ held
  | .sexpRealloc p size oldsize => 0 < size ∧ (p, oldsize.toNat) ∈ held
  | _ => True

instance (r : MemoryCall) (held : Blocks) : Decidable (Promised r held) :=
  match r with
  | .setSexpMaxMemory _ => inferInstanceAs (Decidable True)
  | .sexpMalloc _ => inferInstanceAs (Decidable True)
  | .sexpCalloc _ _ => inferInstanceAs (Decidable True)
  | .sexpFree _ _ => inferInstanceAs (Decidable (_ ∈ _))
  | .sexpRealloc _ _ _ => inferInstanceAs (Decidable (_ ∧ _))

/-- What a client holds behind a call, by the answer alone. A pointer stands for a block of the size
that it asked for, and it gives up what it frees and what it has reallocated. -/
def heldAfter (r : MemoryCall) (answer : MemoryAnswer) (held : Blocks) : Blocks :=
  match r, answer with
  | .sexpMalloc size, .pointer (some p) => (p, size.toNat) :: held
  | .sexpCalloc count size, .pointer (some p) => (p, count.toNat * size.toNat) :: held
  | .sexpRealloc p size _, .pointer (some q) => (q, size.toNat) :: held.without p
  | .sexpFree p _, _ => held.without p
  | _, _ => held

/-- What a client holds after any calls, and the state of the limiter. -/
inductive MemoryRun : Blocks → Ledger → Prop where
  | start (errno : ErrCode) : MemoryRun [] (.start errno)
  | call {held : Blocks} {m : Ledger} {r : MemoryCall} {given : Option Nat} (h : MemoryRun held m)
      (hr : Promised r held) (hgiven : m.Honest r given) :
      MemoryRun (heldAfter r (m.call r given).1 held) (m.call r given).2

end Sfsexp
