import Sfsexp.Model.Sexp

/-!
# The variables of the parsers

`cparse_sexp` and `eparse_sexp` copy a continuation into local variables, run their loop on the
locals and copy them back on every return. The locals, the continuation and the operations on
the atom buffer that both parsers are made of are modelled here.

Pointers into a buffer are offsets from its start. The counters `depth`, `qdepth`, `elts` and the
height of the stack are unbounded, so the model describes runs whose nesting fits these counters: the
height is an `int`, and each open list takes a level, as the outermost level does. `qdepth` is an
integer because the source may decrement it below zero. Memory that was allocated and never written
holds whatever the parameter `junk` says.
-/

namespace Sfsexp

/-- The states of the parsers' automaton; `unknown` is any number the `switch` has no case for. -/
inductive State where
  | s1 | s2 | s3 | s4 | s5 | s6 | s7 | s8 | s9 | s10 | s11 | s12 | s13 | s14 | s15
  | unknown
  deriving DecidableEq, Repr

/-- `sexp_val_start_size` and `sexp_val_grow_size`. -/
structure BufferParams where
  startSize : Nat
  growSize : Nat
  start_pos : 0 < startSize
  grow_pos : 0 < growSize

/-- The sizes in force before any call of `set_parser_buffer_params`. -/
def defaultParams : BufferParams := ⟨256, 64, by decide, by decide⟩

/-- `set_parser_buffer_params`. A bad growth size is reported after the start size was set. -/
def setParserBufferParams (ss gs : Nat) (p : BufferParams) : BufferParams × ErrCode :=
  if hs : 0 < ss then
    if hg : 0 < gs then (⟨ss, gs, hs, hg⟩, .ok)
    else (⟨ss, p.growSize, hs, p.grow_pos⟩, .badParam)
  else (p, .badParam)

/-- What a call finds around it: the buffer sizes, the content of fresh memory, and which of the
allocations it asks for succeed, in order. -/
structure Setup where
  params : BufferParams
  junk : Nat → Byte
  alloc : Nat → Bool

/-- Every allocation succeeds. -/
def Setup.Succeeds (g : Setup) : Prop := ∀ n, g.alloc n = true

/-- The default sizes, zeroed memory and no failures. -/
def Setup.plain : Setup := ⟨defaultParams, fun _ => nul, fun _ => true⟩

/-- `n` cells of fresh memory. -/
def Setup.fresh (g : Setup) (n : Nat) : List Byte := (List.range n).map g.junk

@[simp] lemma Setup.length_fresh (g : Setup) (n : Nat) : (g.fresh n).length = n := by
  simp [Setup.fresh]

/-- `faststack_t` with the `parse_data_t` of each level read as the chain from `fst` to `lst`. The
levels are listed from the top; `spare` counts the allocated levels above the top. `StackHeap` models
the levels in memory. -/
structure Faststack where
  levels : List (List Sexp)
  spare : Nat
  height : Nat

/-- `make_stack`. -/
def makeStack : Faststack := ⟨[], 0, 0⟩

/-- `pop`, with the data of the popped level. -/
def Faststack.pop (s : Faststack) : Option (List Sexp × Faststack) :=
  match s.levels, s.height with
  | data :: rest, h + 1 => some (data, ⟨rest, s.spare + 1, h⟩)
  | _, _ => none

/-- The loops that pop until the stack is empty and keep the `fst` of the last level. -/
def popAll : List (List Sexp) → Nat → Nat → List Sexp → Option (Faststack × List Sexp)
  | [], spare, height, sx => some (⟨[], spare, height⟩, sx)
  | data :: rest, spare, height + 1, _ => popAll rest (spare + 1) height data
  | _ :: _, _, 0, _ => none

/-- The assignment `data->lst->list = sx` on a level; `none` when `lst` is `NULL`. An atom keeps
its meaning when its `list` field is written. -/
def setLast : List Sexp → List Sexp → Option (List Sexp)
  | [], _ => none
  | [.list _], sx => some [.list sx]
  | [x], _ => some [x]
  | x :: y :: rest, sx => (setLast (y :: rest) sx).map (x :: ·)

/-- The locals that `SAVE_CONT_STATE` copies into the continuation. -/
structure Regs where
  stack : Faststack
  val : List Byte
  valAllocated : Nat
  valUsed : Nat
  vcur : Nat
  depth : Nat
  qdepth : Int
  state : State
  esc : Bool
  squoted : Bool
  mode : ParserMode
  binexpected : Nat
  binread : Nat
  bindata : Option (List Byte)
  eventHandlers : Option Handlers

/-- `pcont_t`. The field `sbuffer` is left to the caller of the model: a call is given the memory
that `sbuffer` points to while the call runs. -/
structure Pcont extends Regs where
  lastSexp : List Sexp
  lastPos : Option Nat
  error : ErrCode

/-- The locals of a running parser, with the allocations asked for and the callbacks made so far
in this call. -/
structure Locals extends Regs where
  t : Nat
  elts : Nat
  sx : List Sexp
  allocs : Nat
  events : List Event

/-- What makes a run of the C code undefined. -/
inductive Fault where
  | input
  | atomBuffer
  | blob
  | string
  | nullPointer
  | assertion
  deriving DecidableEq, Repr

/-- What a call leaves behind: the continuation, `sexp_errno`, the callbacks it made and the place
the cursor got to. -/
structure Return where
  cc : Pcont
  errno : ErrCode
  events : List Event
  cursor : Nat

/-- The ways to leave the loop of a parser. -/
inductive Stop where
  | ret (r : Return)
  | fault (f : Fault)

abbrev Exec := Except Stop

@[simp] lemma ok_bind {α β : Type} (a : α) (f : α → Exec β) :
    ((.ok a : Exec α) >>= f) = f a := rfl

@[simp] lemma error_bind {α β : Type} (e : Stop) (f : α → Exec β) :
    ((.error e : Exec α) >>= f) = .error e := rfl

/-- The outcome of a call. `null` is a `NULL` continuation; `diverges` is a loop that never ends. -/
inductive Result where
  | ret (r : Return)
  | null (errno : ErrCode)
  | fault (f : Fault)
  | diverges

/-- The setup of a call and the memory it reads: `buf` starts at `sbuffer`, and `bufEnd` is
`sbuffer + len`. -/
structure Env extends Setup where
  buf : List Byte
  len : Nat

/-- `t[0]`. -/
def Env.read (env : Env) (t : Nat) : Exec Byte :=
  match env.buf[t]? with
  | some c => .ok c
  | none => .error (.fault .input)

/-- `SAVE_CONT_STATE(err, ls)` followed by `return cc`. -/
def Locals.save (l : Locals) (err : ErrCode) (ls : List Sexp) : Stop :=
  .ret { cc := { toRegs := l.toRegs, lastSexp := ls, lastPos := some l.t, error := err }
         errno := err, events := l.events, cursor := l.t }

/-- Calls a handler when it is set. -/
def fire (handler : Handlers → Bool) (e : Event) (l : Locals) : Locals :=
  match l.eventHandlers with
  | some h => if handler h then { l with events := l.events ++ [e] } else l
  | none => l

@[simp] lemma fire_toRegs (handler : Handlers → Bool) (e : Event) (l : Locals) :
    (fire handler e l).toRegs = l.toRegs := by
  unfold fire
  split
  · split <;> rfl
  · rfl

@[simp] lemma fire_t (handler : Handlers → Bool) (e : Event) (l : Locals) :
    (fire handler e l).t = l.t := by
  unfold fire
  split
  · split <;> rfl
  · rfl

@[simp] lemma fire_elts (handler : Handlers → Bool) (e : Event) (l : Locals) :
    (fire handler e l).elts = l.elts := by
  unfold fire
  split
  · split <;> rfl
  · rfl

@[simp] lemma fire_sx (handler : Handlers → Bool) (e : Event) (l : Locals) :
    (fire handler e l).sx = l.sx := by
  unfold fire
  split
  · split <;> rfl
  · rfl

@[simp] lemma fire_allocs (handler : Handlers → Bool) (e : Event) (l : Locals) :
    (fire handler e l).allocs = l.allocs := by
  unfold fire
  split
  · split <;> rfl
  · rfl

/-- `vcur[0] = c`. A `NULL` buffer has no cells. -/
def writeCur (c : Byte) (l : Locals) : Exec Locals :=
  if l.vcur < l.val.length then .ok { l with val := l.val.set l.vcur c }
  else .error (.fault .atomBuffer)

/-- The escape code of states 4 and 5: step back over the backslash and overwrite it. -/
def overwrite (c : Byte) (l : Locals) : Exec Locals :=
  match l.vcur with
  | 0 => .error (.fault .atomBuffer)
  | v + 1 =>
    if v < l.val.length then
      .ok { l with val := l.val.set v c, t := l.t + 1, esc := false }
    else .error (.fault .atomBuffer)

/-- Attaches `sx` to the end of the top level; `none` when the stack is empty. -/
def link (l : Locals) : Option Locals :=
  match l.stack.levels with
  | [] => none
  | top :: rest => some { l with stack := { l.stack with levels := (top ++ l.sx) :: rest } }

/-- The white space of C's `isspace`. -/
def isCSpace (c : Byte) : Bool := c == space || (decide (tab ≤ c) && decide (c ≤ carriage))

/-- The value of the leading decimal digits. -/
def digits : Nat → List Byte → Nat
  | acc, c :: cs => if 48 ≤ c ∧ c ≤ 57 then digits (10 * acc + (c.toNat - 48)) cs else acc
  | acc, [] => acc

/-- `atoi` of a C string. Where the value does not fit an `int` the call is undefined in C, and the
model says nothing about the code. -/
def atoi (s : List Byte) : Int :=
  match s.dropWhile isCSpace with
  | 45 :: cs => - (digits 0 cs : Int)
  | 43 :: cs => digits 0 cs
  | cs => digits 0 cs

/-- The conversion of an `int` to `size_t`. -/
def toSize (i : Int) : Nat := (i % 2 ^ 64).toNat

end Sfsexp
