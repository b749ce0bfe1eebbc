import Sfsexp.Lib.Metered
import Sfsexp.Model.Calls

/-!
# The parser in the build that limits memory

`cparse_sexp` once more, with the calls it makes to `sexp_malloc`, `sexp_calloc`, `sexp_realloc` and
`sexp_free`. The build has `_SEXP_LIMIT_MEMORY_` and `_NO_MEMORY_MANAGEMENT_`, so that nodes and
`parse_data_t` are not cached. States that ask for no memory are taken over as they are.
-/

namespace Sfsexp

open AllocOp Metered

/-- `sizeof` of the structures that the library allocates. -/
structure Sizes where
  sexpT : Nat
  parseData : Nat
  stackLvl : Nat
  faststack : Nat
  pcont : Nat
  cstring : Nat

/-- The sizes on a machine with 64-bit pointers. -/
def Sizes.lp64 : Sizes := ⟨72, 16, 24, 24, 128, 24⟩

namespace Limited

variable (z : Sizes) (env : Env)

/-- An allocation of `n` bytes; `undo` is done when it fails. -/
def need (n : Nat) (undo : List AllocOp) (l : Locals) : Metered Stop Locals :=
  ⟨if env.alloc l.allocs then [.alloc n] else undo, Sfsexp.need env l⟩

/-- `push`. -/
def push (data : List Sexp) (l : Locals) : Metered Stop Locals :=
  ⟨if 0 < l.stack.spare then [] else if env.alloc l.allocs then [.alloc z.stackLvl] else [],
    .ok (Sfsexp.push env data l)⟩

/-- The growth code after `val_used++`. -/
def grow (keep : Bool) (l : Locals) : Metered Stop Locals :=
  ⟨if l.valUsed = l.valAllocated ∧ env.alloc l.allocs then
      [.realloc (l.valAllocated + env.params.growSize) l.valAllocated]
    else [],
    Sfsexp.grow env keep l⟩

def store (c : Byte) (l : Locals) : Metered Stop Locals := do
  let l ← lift (writeCur c l)
  grow env true { l with valUsed := l.valUsed + 1 }

def storeEsc (c : Byte) (l : Locals) : Metered Stop Locals := do
  let l ← lift (writeCur c l)
  grow env true { l with esc := c == backslash, valUsed := l.valUsed + 1 }

/-- The new buffer. When there is none, the node of the atom is freed with the old one. -/
def emit (aty : AtomT) (l : Locals) : Metered Stop Locals :=
  ⟨if env.alloc l.allocs then [.alloc env.params.startSize]
    else [.free l.valAllocated, .free z.sexpT],
    Sfsexp.emit env aty l⟩

/-- Between tokens. -/
def state1 (c : Byte) (l : Locals) : Metered Stop Locals :=
  if isWhite c ∨ c = semicolon ∨ c = lparen ∨ c = rparen ∨ c = dquote ∨ c = tick then
    lift (Sfsexp.state1 env c l)
  else do
    let l ← lift (writeCur c { l with vcur := 0 })
    let l ← grow env false { l with esc := c == backslash, valUsed := l.valUsed + 1 }
    pure { l with state := if c = hash ∧ l.mode = .inlineBinary then .s12 else .s4, t := l.t + 1 }

/-- Puts the element of a new list on the stack. Without a `parse_data_t` its node is freed. -/
def attachList (l : Locals) : Metered Stop Locals :=
  if l.stack.height < 1 then do
    let l ← need env z.parseData [.free z.sexpT] l
    push z env l.sx l
  else
    lift (match link l with
      | some l => .ok l
      | none => .error (.fault .nullPointer))

/-- Open paren. -/
def state2 (l : Locals) : Metered Stop Locals := do
  let l ← need env z.sexpT [] { l with depth := l.depth + 1 }
  let l ← attachList z env { l with elts := l.elts + 1, sx := [.list []] }
  let l ← need env z.parseData [] l
  let l ← push z env [] l
  pure { l with state := .s1 }

/-- `pop` and `pd_deallocate`. -/
def closeLevel (l : Locals) : Metered Stop Locals := ⟨[.free z.parseData], Sfsexp.closeLevel l⟩

/-- `pd_deallocate` for each level that is popped. -/
def returnTree (l : Locals) : Metered Stop Locals :=
  ⟨List.replicate l.stack.levels.length (.free z.parseData), .error (Sfsexp.returnTree l)⟩

/-- Close paren. -/
def state3 (l : Locals) : Metered Stop Locals :=
  if l.depth = 0 then lift (Sfsexp.state3 l)
  else do
    let l ← closeLevel z { l with t := l.t + 1, depth := l.depth - 1 }
    let l := fire (·.endSexpr) .endSexpr { l with state := .s1 }
    if l.depth = 0 then returnTree z l else pure l

/-- The end of a bare atom. -/
def endBare (c : Byte) (l : Locals) : Metered Stop Locals := do
  let l ← lift (writeCur nul l)
  let l ← need env z.sexpT [] { l with valUsed := l.valUsed + 1 }
  let l ← emit z env (if l.squoted then .squote else .basic) l
  lift (match link l with
    | none => .error ({ l with squoted := false, state := .s1, esc := false }.save .ok l.sx)
    | some l => .ok (afterBare c l))

/-- Inside a bare atom. -/
def state4 (c : Byte) (l : Locals) : Metered Stop Locals :=
  if l.esc && isEscapable c then lift (overwrite c l)
  else if isAtomByte c then do
    let l ← storeEsc env c l
    pure { l with t := l.t + 1 }
  else endBare z env c l

/-- The closing quote, which the text of a single-quoted string keeps. -/
def closingQuote (l : Locals) : Metered Stop Locals :=
  if l.squoted then store env dquote l else pure l

/-- The end of a double-quoted string. -/
def endQuoted (l : Locals) : Metered Stop Locals := do
  let l ← closingQuote env l
  let l ← lift (writeCur nul l)
  let l ← need env z.sexpT [] { l with valUsed := l.valUsed + 1 }
  let l ← emit z env (if l.squoted then .squote else .dquote) { l with squoted := false }
  lift (match link l with
    | none =>
      .error ({ l with t := l.t + 1, squoted := false, esc := false, state := .s1 }.save .ok l.sx)
    | some l => .ok { l with t := l.t + 1 })

/-- State 5 once a pending escape has been dealt with. -/
def state5Rest (c : Byte) (l : Locals) : Metered Stop Locals :=
  if c = dquote then endQuoted z env { l with state := .s6 }
  else do
    let l ← store env c l
    pure { l with esc := c == backslash, t := l.t + 1 }

/-- Inside double quotes. -/
def state5 (c : Byte) (l : Locals) : Metered Stop Locals :=
  if l.esc && isEscapable c then do
    let l ← lift (overwrite c l)
    let c ← lift (env.read l.t)
    state5Rest z env c l
  else state5Rest z env c l

/-- After the apostrophe. -/
def state7 (c : Byte) (l : Locals) : Metered Stop Locals :=
  if c = dquote then do
    let l ← store env dquote { l with state := .s5, vcur := 0, t := l.t + 1 }
    pure { l with squoted := true }
  else lift (Sfsexp.state7 env c l)

/-- The end of a quoted list. -/
def endQuotedList (l : Locals) : Metered Stop Locals := do
  let l ← lift (writeCur nul l)
  let l ← need env z.sexpT [] l
  let l ← emit z env .squote l
  lift (match link l with
    | none => .error ({ l with squoted := false, esc := false, state := .s1 }.save .ok l.sx)
    | some l => .ok l)

/-- After a closing paren of a quoted list. -/
def state9 (l : Locals) : Metered Stop Locals :=
  if l.qdepth = 0 then endQuotedList z env { l with state := .s1 }
  else lift (Sfsexp.state9 env l)

/-- Inside a quoted list. -/
def state8 (c : Byte) (l : Locals) : Metered Stop Locals := do
  let l ← storeEsc env c (countParen c l)
  let l := { l with t := l.t + 1 }
  if l.state = .s9 then state9 z env l else pure l

/-- Inside double quotes of a quoted list. -/
def state10 (c : Byte) (l : Locals) : Metered Stop Locals := do
  let l ← storeEsc env c (if c = dquote ∧ l.esc = false then { l with state := .s8 } else l)
  pure { l with t := l.t + 1 }

/-- After `#` in inline binary mode. -/
def state12 (c : Byte) (l : Locals) : Metered Stop Locals :=
  if c = letterB then do
    let l ← storeEsc env c l
    pure { l with state := .s13, t := l.t + 1 }
  else lift (Sfsexp.state12 env c l)

/-- After `#b` in inline binary mode. -/
def state13 (c : Byte) (l : Locals) : Metered Stop Locals :=
  if c = hash then do
    let l ← storeEsc env c l
    pure { l with state := .s14, vcur := 0, valUsed := 0, t := l.t + 1 }
  else lift (Sfsexp.state13 env c l)

/-- The end of the size of a binary blob. -/
def endSize (l : Locals) : Metered Stop Locals := do
  let l ← lift (writeCur nul l)
  let l := { l with binexpected := toSize (atoi (cstr l.val)), binread := 0, bindata := none }
  if 0 < l.binexpected then do
    let l ← need env l.binexpected [] l
    pure { l with bindata := some (env.fresh l.binexpected) }
  else pure l

/-- Inside the size of a binary blob. -/
def state14 (c : Byte) (l : Locals) : Metered Stop Locals :=
  if c = hash then endSize env { l with t := l.t + 1, state := .s15 }
  else do
    let l ← storeEsc env c l
    pure { l with t := l.t + 1 }

/-- The end of a binary blob. -/
def endBlob (l : Locals) : Metered Stop Locals := do
  let l ← need env z.sexpT [] l
  let l := fire (·.binary) (.binary (l.bindata.getD []) l.binread)
    { l with elts := l.elts + 1, sx := [.blob l.bindata l.binread] }
  let l := { l with bindata := none, binread := 0, binexpected := 0, state := .s1
                    valUsed := 0, vcur := 0 }
  pure ((link l).getD l)

/-- Inside a binary blob. -/
def state15 (l : Locals) : Metered Stop Locals := do
  let l ← lift (readBlob env l)
  if l.binread = l.binexpected then endBlob z env l else pure l

/-- The code after the loop. -/
def finish (l : Locals) : Metered Stop Locals :=
  if l.depth = 0 ∧ 0 < l.elts then returnTree z l else lift (.error (Sfsexp.finish env l))

/-- The `switch`. -/
def switch (c : Byte) (l : Locals) : Metered Stop Locals :=
  match l.state with
  | .s1 => state1 env c l
  | .s2 => state2 z env l
  | .s3 => state3 z l
  | .s4 => state4 z env c l
  | .s5 => state5 z env c l
  | .s7 => state7 env c l
  | .s8 => state8 z env c l
  | .s9 => state9 z env l
  | .s10 => state10 env c l
  | .s12 => state12 env c l
  | .s13 => state13 env c l
  | .s14 => state14 env c l
  | .s15 => state15 z env l
  | .s6 | .s11 | .unknown => lift (Sfsexp.switch env c l)

/-- One round of the main loop. -/
def cparseHead (l : Locals) : Metered Stop Locals :=
  if l.state = .s15 then
    if l.t = env.len then finish z env l else state15 z env l
  else do
    let c ← lift (env.read l.t)
    if c = nul ∨ l.t = env.len then finish z env l else switch z env c l

/-- What a call asks for between the set-up of its locals and its return. -/
def parserOps (g : Setup) (buf : List Byte) (len : Nat) (cc : Pcont) (allocs : Nat) :
    List AllocOp :=
  let env : Env := { toSetup := g, buf := buf, len := len }
  (Metered.loop (cparseHead z env) (fuel env) (cc.enter allocs)).1

/-- `init_continuation`. -/
def initOps (g : Setup) : List AllocOp :=
  if !g.alloc 0 then []
  else if !g.alloc 1 then [.alloc z.pcont, .free z.pcont]
  else if !g.alloc 2 then
    [.alloc z.pcont, .alloc g.params.startSize, .free g.params.startSize, .free z.pcont]
  else [.alloc z.pcont, .alloc g.params.startSize, .alloc z.faststack]

/-- `cparse_sexp` on a continuation that is not in mode `PARSER_EVENTS_ONLY`, or on none. -/
def cparseOps (g : Setup) (str : Option (List Byte)) (len : Nat) (lc : Option Pcont) :
    List AllocOp :=
  match str, lc with
  | none, some _ => []
  | none, none => initOps z g
  | some buf, some cc => parserOps z g buf len cc 0
  | some buf, none =>
    match initContinuation g with
    | (none, _) => initOps z g
    | (some cc, allocs) => initOps z g ++ parserOps z g buf len cc allocs

/-- `sexp_t_deallocate` of a node whose `val` is not `NULL` only in a text atom. -/
def sexpTDeallocate (x : Sexp) : List AllocOp :=
  match x with
  | .value _ val valAllocated _ =>
    (if val = [] then [] else [.free valAllocated]) ++ [.free z.sexpT]
  | _ => [.free z.sexpT]

mutual
/-- `destroy_sexp` on a chain: the content of the first element, the rest of the chain, the node. -/
def destroySexp : List Sexp → List AllocOp
  | [] => []
  | s :: next => destroyContent s ++ destroySexp next ++ [.free z.sexpT]

/-- What an element holds beside its node. A binary atom without bytes holds no `val` either, since
its node was cleared by `sexp_calloc`. -/
def destroyContent : Sexp → List AllocOp
  | .value _ val valAllocated _ => if val = [] then [] else [.free valAllocated]
  | .blob bindata binlength => if bindata.isSome then [.free binlength] else []
  | .list elems => destroySexp elems
end

/-- `destroy_stack`. -/
def destroyStack (s : Faststack) : List AllocOp :=
  List.replicate (s.levels.length + s.spare) (.free z.stackLvl) ++ [.free z.faststack]

/-- `destroy_continuation`. -/
def destroyContinuation (cc : Pcont) : List AllocOp :=
  (cc.stack.levels.flatMap fun fst => destroySexp z fst ++ [.free z.parseData]) ++
    destroyStack z cc.stack ++
    (if cc.bindata.isSome then [.free cc.binexpected] else []) ++
    (if cc.val = [] then [] else [.free cc.valAllocated]) ++ [.free z.pcont]

end Limited

end Sfsexp
