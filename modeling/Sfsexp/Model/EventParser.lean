import Sfsexp.Model.Parser

/-!
# `eparse_sexp`

The second copy of the parser, for mode `PARSER_EVENTS_ONLY`. It builds no elements and moves only
the height of the stack. Its return paths write the fields of the continuation one by one, and
some of them leave fields out; those keep the value they have in `cc`. It never sets `sexp_errno`.
-/

namespace Sfsexp

/-- The environment of `eparse_sexp`, with the continuation it was entered with. -/
structure EventEnv extends Env where
  cc : Pcont
  errno : ErrCode

/-- `sexp_val_grow_size` of `event_temp.c`, which no function sets. -/
def eventGrowSize : Nat := 64

namespace EventEnv

variable (env : EventEnv)

/-- A return with the given continuation. -/
def give (cc : Pcont) (l : Locals) : Stop :=
  .ret { cc := cc, errno := env.errno, events := l.events, cursor := l.t }

/-- The return paths inside the loop. `squoted` is the value written to the field. -/
def save (l : Locals) (err : ErrCode) (squoted : Bool) : Stop :=
  env.give { toRegs := { l.toRegs with squoted := squoted, state := .s1, esc := false }
             lastSexp := [], lastPos := some l.t, error := err } l

/-- The growth code after `val_used++`. A failing `realloc` runs into an `assert`. -/
def grow (l : Locals) : Exec Locals :=
  if l.valUsed = l.valAllocated then
    if env.alloc l.allocs then
      .ok { l with val := l.val ++ env.fresh eventGrowSize
                   vcur := l.valUsed
                   valAllocated := l.valAllocated + eventGrowSize
                   allocs := l.allocs + 1 }
    else .error (.fault .assertion)
  else .ok { l with vcur := l.vcur + 1 }

/-- `vcur[0] = c; val_used++;` and growth. -/
def store (c : Byte) (l : Locals) : Exec Locals := do
  let l ← writeCur c l
  env.grow { l with valUsed := l.valUsed + 1 }

/-- `store` where the escape flag is set from the byte on the way. -/
def storeEsc (c : Byte) (l : Locals) : Exec Locals := do
  let l ← writeCur c l
  env.grow { l with esc := c == backslash, valUsed := l.valUsed + 1 }

/-- Reports the atom in the buffer and makes the buffer empty. -/
def report (aty : AtomT) (l : Locals) : Locals :=
  let l := fire (·.characters) (.characters (l.val.take l.valUsed) l.valUsed aty)
    { l with elts := l.elts + 1 }
  { l with vcur := 0, valUsed := 0 }

/-- Between tokens. -/
def state1 (c : Byte) (l : Locals) : Exec Locals :=
  if isWhite c then .ok { l with t := l.t + 1 }
  else if c = semicolon then .ok { l with t := l.t + 1, state := .s11 }
  else if c = lparen then
    .ok (fire (·.startSexpr) .startSexpr { l with state := .s2, t := l.t + 1 })
  else if c = rparen then .ok { l with state := .s3 }
  else if c = dquote then .ok { l with state := .s5, vcur := 0, t := l.t + 1 }
  else if c = tick then .ok { l with state := .s7, t := l.t + 1 }
  else do
    let l ← env.storeEsc c { l with vcur := 0 }
    .ok { l with state := if c = hash ∧ l.mode = .inlineBinary then .s12 else .s4, t := l.t + 1 }

/-- Open paren. -/
def state2 (l : Locals) : Locals :=
  let height := if l.stack.height < 1 then l.stack.height + 1 else l.stack.height
  { l with depth := l.depth + 1, elts := l.elts + 1
           stack := { l.stack with height := height + 1 }, state := .s1 }

/-- Close paren. The field `squoted` of the continuation is not written here. -/
def state3 (l : Locals) : Exec Locals :=
  if l.depth = 0 then .error (env.save l .badForm env.cc.squoted)
  else
    let l := fire (·.endSexpr) .endSexpr
      { l with t := l.t + 1, depth := l.depth - 1
               stack := { l.stack with height := l.stack.height - 1 } }
    if l.depth = 0 then
      .error (env.save { l with stack := { l.stack with height := 0 } } .ok env.cc.squoted)
    else .ok { l with state := .s1 }

/-- The end of a bare atom. -/
def endBare (c : Byte) (l : Locals) : Exec Locals := do
  let l ← writeCur nul l
  let l := report (if l.squoted then .squote else .basic) { l with valUsed := l.valUsed + 1 }
  if l.stack.height < 1 then .error (env.save l .ok false) else .ok (afterBare c l)

/-- Inside a bare atom. -/
def state4 (c : Byte) (l : Locals) : Exec Locals :=
  if l.esc && isEscapable c then overwrite c l
  else if isAtomByte c then do
    let l ← env.storeEsc c l
    .ok { l with t := l.t + 1 }
  else env.endBare c l

/-- The closing quote, which the text of a single-quoted string keeps. -/
def closingQuote (l : Locals) : Exec Locals := if l.squoted then env.store dquote l else .ok l

/-- The end of a double-quoted string. Inside a list `squoted` is left set. -/
def endQuoted (l : Locals) : Exec Locals := do
  let l ← env.closingQuote l
  let l ← writeCur nul l
  let l := report (if l.squoted then .squote else .dquote) { l with valUsed := l.valUsed + 1 }
  if l.stack.height < 1 then .error (env.save { l with t := l.t + 1 } .ok false)
  else .ok { l with t := l.t + 1 }

/-- State 5 once a pending escape has been dealt with. -/
def state5Rest (c : Byte) (l : Locals) : Exec Locals :=
  if c = dquote then env.endQuoted { l with state := .s6 }
  else do
    let l ← env.store c l
    .ok { l with esc := c == backslash, t := l.t + 1 }

/-- Inside double quotes. -/
def state5 (c : Byte) (l : Locals) : Exec Locals :=
  if l.esc && isEscapable c then do
    let l ← overwrite c l
    let c ← env.read l.t
    env.state5Rest c l
  else env.state5Rest c l

/-- After the apostrophe. -/
def state7 (c : Byte) (l : Locals) : Exec Locals :=
  if c = dquote then do
    let l ← env.store dquote { l with state := .s5, vcur := 0, t := l.t + 1 }
    .ok { l with squoted := true }
  else if c = lparen then .ok { l with vcur := 0, state := .s8 }
  else .ok { l with vcur := 0, state := .s4, squoted := true }

/-- The end of a quoted list. -/
def endQuotedList (l : Locals) : Exec Locals := do
  let l ← writeCur nul l
  let l := report .squote l
  if l.stack.height < 1 then .error (env.save l .ok false) else .ok l

/-- After a closing paren of a quoted list. -/
def state9 (l : Locals) : Exec Locals :=
  if l.qdepth = 0 then env.endQuotedList { l with state := .s1 }
  else .ok { l with state := .s8 }

/-- Inside a quoted list. -/
def state8 (c : Byte) (l : Locals) : Exec Locals := do
  let l ← env.storeEsc c (countParen c l)
  let l := { l with t := l.t + 1 }
  if l.state = .s9 then env.state9 l else .ok l

/-- Inside double quotes of a quoted list. -/
def state10 (c : Byte) (l : Locals) : Exec Locals := do
  let l ← env.storeEsc c (if c = dquote ∧ l.esc = false then { l with state := .s8 } else l)
  .ok { l with t := l.t + 1 }

/-- After `#` in inline binary mode. -/
def state12 (c : Byte) (l : Locals) : Exec Locals :=
  if c = letterB then do
    let l ← env.storeEsc c l
    .ok { l with state := .s13, t := l.t + 1 }
  else .ok { l with state := .s4 }

/-- After `#b` in inline binary mode. -/
def state13 (c : Byte) (l : Locals) : Exec Locals :=
  if c = hash then do
    let l ← env.storeEsc c l
    .ok { l with state := .s14, vcur := 0, valUsed := 0, t := l.t + 1 }
  else .ok { l with state := .s4 }

/-- The end of the size of a binary blob. A size of zero runs into an `assert`. -/
def endSize (l : Locals) : Exec Locals := do
  let l ← writeCur nul l
  let l := { l with binexpected := toSize (atoi (cstr l.val)), binread := 0 }
  if 0 < l.binexpected ∧ env.alloc l.allocs then
    .ok { l with bindata := some (env.fresh l.binexpected), allocs := l.allocs + 1 }
  else .error (.fault .assertion)

/-- Inside the size of a binary blob. -/
def state14 (c : Byte) (l : Locals) : Exec Locals :=
  if c = hash then env.endSize { l with t := l.t + 1, state := .s15 }
  else do
    let l ← env.storeEsc c l
    .ok { l with t := l.t + 1 }

/-- The first half of state 15: take one byte of the blob. -/
def readBlob (l : Locals) : Exec Locals := do
  let c ← env.read l.t
  match l.bindata with
  | none => .error (.fault .blob)
  | some data =>
    if l.binread < data.length then
      .ok { l with bindata := some (data.set l.binread c), binread := l.binread + 1, t := l.t + 1 }
    else .error (.fault .blob)

/-- The end of a binary blob. -/
def endBlob (l : Locals) : Locals :=
  let l := fire (·.binary) (.binary (l.bindata.getD []) l.binread) { l with elts := l.elts + 1 }
  { l with bindata := none, binread := 0, binexpected := 0, state := .s1, valUsed := 0, vcur := 0 }

/-- Inside a binary blob. -/
def state15 (l : Locals) : Exec Locals := do
  let l ← env.readBlob l
  if l.binread = l.binexpected then .ok (endBlob l) else .ok l

/-- The code after the loop. -/
def finish (l : Locals) : Stop :=
  if l.depth = 0 ∧ 0 < l.elts then
    env.save { l with stack := { l.stack with height := 0 } } .ok l.squoted
  else
    match env.buf[l.t]? with
    | none => .fault .input
    | some c =>
      env.give { toRegs := l.toRegs, lastSexp := []
                 lastPos := if c = nul ∨ l.t = env.len then none else some l.t, error := .ok } l

/-- The `switch`, given `t[0]`, in all states but 15. Its default case only prints a message, so
the loop goes round again. -/
def switch (c : Byte) (l : Locals) : Exec Locals :=
  match l.state with
  | .s1 => env.state1 c l
  | .s2 => .ok (state2 l)
  | .s3 => env.state3 l
  | .s4 => env.state4 c l
  | .s5 => env.state5 c l
  | .s6 => .ok { l with vcur := 0, state := .s1 }
  | .s7 => env.state7 c l
  | .s8 => env.state8 c l
  | .s9 => env.state9 l
  | .s10 => env.state10 c l
  | .s11 => state11 c l
  | .s12 => env.state12 c l
  | .s13 => env.state13 c l
  | .s14 => env.state14 c l
  | .s15 => env.state15 l
  | .unknown => .ok l

/-- One round of the main loop. -/
def eparseHead (l : Locals) : Exec Locals :=
  if l.state = .s15 then
    if l.t = env.len then .error (env.finish l) else env.state15 l
  else do
    let c ← env.read l.t
    if c = nul ∨ l.t = env.len then .error (env.finish l) else env.switch c l

end EventEnv

end Sfsexp
