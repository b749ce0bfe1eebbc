import Sfsexp.Model.Calls

/-!
# A client that tunes the buffers

What a client does around one continuation: it sets the sizes of the atom buffer, sets the callbacks,
and calls `cparse_sexp` with any string, on the continuation it holds or on `NULL`. The run of a
client is the list of its calls, each with the heads of the loop it passed and its outcome.
-/

namespace Sfsexp

inductive Action where
  | setParserBufferParams (ss gs : Nat)
  | setHandlers (handlers : Option Handlers)
  | cparseSexp (anew : Bool) (str : Option (List Byte)) (len : Nat)

structure Client where
  params : BufferParams
  cc : Option Pcont
  errno : ErrCode

/-- One call of `cparse_sexp`: the loop heads it passed and how it ended. -/
structure CallTrace where
  heads : List Locals
  outcome : Result

/-- `cparse_sexp` outside of mode `PARSER_EVENTS_ONLY`, with the loop heads it passes. -/
def tracedCall (g : Setup) (str : Option (List Byte)) (len : Nat) (lc : Option Pcont)
    (errno : ErrCode) : CallTrace where
  heads :=
    match str with
    | none => []
    | some buf =>
      let env : Env := { toSetup := g, buf := buf, len := len }
      match lc with
      | some cc => Loop.heads (cparseHead env) (fuel env) (cc.enter 0)
      | none =>
        match initContinuation g with
        | (none, _) => []
        | (some cc, allocs) => Loop.heads (cparseHead env) (fuel env) (cc.enter allocs)
  outcome := cparseSexp g str len lc errno

/-- The client after a call; `none` when the call is undefined. -/
def Client.after (c : Client) : Result → Option Client
  | .ret r => some { c with cc := some r.cc, errno := r.errno }
  | .null errno => some { c with cc := none, errno := errno }
  | .fault _ => none
  | .diverges => none

/-- The calls of a client up to the first that is undefined. Every allocation succeeds, and the
memory it gives holds what `junk` says, call by call. -/
def Client.run (junk : Nat → Nat → Byte) : List Action → Client → List CallTrace
  | [], _ => []
  | .setParserBufferParams ss gs :: as, c =>
    run junk as { c with params := (Sfsexp.setParserBufferParams ss gs c.params).1 }
  | .setHandlers handlers :: as, c =>
    run junk as { c with cc := c.cc.map fun cc => { cc with eventHandlers := handlers } }
  | .cparseSexp anew str len :: as, c =>
    let g : Setup := { params := c.params, junk := junk as.length, alloc := fun _ => true }
    let k := tracedCall g str len (if anew then none else c.cc) c.errno
    k :: match c.after k.outcome with
      | some c => run junk as c
      | none => []

/-- A client that holds no continuation yet. -/
def Client.start (p : BufferParams) : Client := ⟨p, none, .ok⟩

/-- The actions of a client without its settings of the buffer sizes. -/
def untuned : List Action → List Action :=
  List.filter fun
    | .setParserBufferParams _ _ => false
    | _ => true

end Sfsexp
