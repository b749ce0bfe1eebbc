import Sfsexp.Model.Locals

/-!
# `cparse_sexp`

The continuation-based parser. One definition models each case of the `switch`; `cparseHead` is
one round of the main loop, from the test of its guard to the next.
-/

namespace Sfsexp

/-- An allocation whose failure makes the parser return `SEXP_ERR_MEMORY` with its locals as they
are. -/
def need (env : Env) (l : Locals) : Exec Locals :=
  if env.alloc l.allocs then .ok { l with allocs := l.allocs + 1 }
  else .error ({ l with allocs := l.allocs + 1 }.save .memory [])

/-- `push`. The parser ignores the `NULL` of a level that could not be allocated. -/
def push (env : Env) (data : List Sexp) (l : Locals) : Locals :=
  if 0 < l.stack.spare then
    { l with stack := ⟨data :: l.stack.levels, l.stack.spare - 1, l.stack.height + 1⟩ }
  else if env.alloc l.allocs then
    { l with stack := ⟨data :: l.stack.levels, 0, l.stack.height + 1⟩, allocs := l.allocs + 1 }
  else { l with allocs := l.allocs + 1 }

/-- The growth code after `val_used++`. In state 1 a failing `realloc` is assigned to `val`, so
`keep` is false there; everywhere else the old buffer is kept. -/
def grow (env : Env) (keep : Bool) (l : Locals) : Exec Locals :=
  if l.valUsed = l.valAllocated then
    if env.alloc l.allocs then
      .ok { l with val := l.val ++ env.fresh env.params.growSize
                   vcur := l.valUsed
                   valAllocated := l.valAllocated + env.params.growSize
                   allocs := l.allocs + 1 }
    else
      .error ({ l with val := if keep then l.val else [], allocs := l.allocs + 1 }.save .memory [])
  else .ok { l with vcur := l.vcur + 1 }

/-- `vcur[0] = c; val_used++;` and growth. -/
def store (env : Env) (c : Byte) (l : Locals) : Exec Locals := do
  let l ← writeCur c l
  grow env true { l with valUsed := l.valUsed + 1 }

/-- `store` where the escape flag is set from the byte on the way. -/
def storeEsc (env : Env) (c : Byte) (l : Locals) : Exec Locals := do
  let l ← writeCur c l
  grow env true { l with esc := c == backslash, valUsed := l.valUsed + 1 }

/-- Builds the atom from the buffer, reports it and starts a new buffer. A failing `malloc` frees
the atom together with the old buffer. -/
def emit (env : Env) (aty : AtomT) (l : Locals) : Exec Locals :=
  let l := fire (·.characters) (.characters (l.val.take l.valUsed) l.valUsed aty)
    { l with elts := l.elts + 1, sx := [.value aty l.val l.valAllocated l.valUsed] }
  if env.alloc l.allocs then
    .ok { l with val := env.fresh env.params.startSize
                 valAllocated := env.params.startSize
                 valUsed := 0
                 vcur := 0
                 allocs := l.allocs + 1 }
  else .error ({ l with val := [], allocs := l.allocs + 1 }.save .memory [])

/-- Between tokens. -/
def state1 (env : Env) (c : Byte) (l : Locals) : Exec Locals :=
  if isWhite c then .ok { l with t := l.t + 1 }
  else if c = semicolon then .ok { l with t := l.t + 1, state := .s11 }
  else if c = lparen then
    .ok (fire (·.startSexpr) .startSexpr { l with state := .s2, t := l.t + 1 })
  else if c = rparen then .ok { l with state := .s3 }
  else if c = dquote then .ok { l with state := .s5, vcur := 0, t := l.t + 1 }
  else if c = tick then .ok { l with state := .s7, t := l.t + 1 }
  else do
    let l ← writeCur c { l with vcur := 0 }
    let l ← grow env false { l with esc := c == backslash, valUsed := l.valUsed + 1 }
    .ok { l with state := if c = hash ∧ l.mode = .inlineBinary then .s12 else .s4, t := l.t + 1 }

/-- Puts the element of a new list at the end of the top level, or on a first level of its own. -/
def attachList (env : Env) (l : Locals) : Exec Locals :=
  if l.stack.height < 1 then do
    let l ← need env l
    .ok (push env l.sx l)
  else
    match link l with
    | some l => .ok l
    | none => .error (.fault .nullPointer)

/-- Open paren. -/
def state2 (env : Env) (l : Locals) : Exec Locals := do
  let l ← need env { l with depth := l.depth + 1 }
  let l ← attachList env { l with elts := l.elts + 1, sx := [.list []] }
  let l ← need env l
  .ok { push env [] l with state := .s1 }

/-- Pops the top level and makes its chain the children of the last element below it. -/
def closeLevel (l : Locals) : Exec Locals :=
  match l.stack.pop with
  | none => .error (.fault .nullPointer)
  | some (sx, stack) =>
    match stack.levels with
    | [] => .error ({ l with stack := stack, sx := sx }.save .badStack [])
    | top :: rest =>
      match setLast top sx with
      | none => .error (.fault .nullPointer)
      | some top => .ok { l with stack := { stack with levels := top :: rest }, sx := sx }

/-- Pops what is left on the stack and returns the chain of the last level popped. -/
def returnTree (l : Locals) : Stop :=
  match popAll l.stack.levels l.stack.spare l.stack.height l.sx with
  | none => .fault .nullPointer
  | some (stack, sx) =>
    { l with stack := stack, sx := sx, esc := false, state := .s1 }.save .ok sx

/-- Close paren. -/
def state3 (l : Locals) : Exec Locals :=
  if l.depth = 0 then .error ({ l with esc := false, state := .s1 }.save .badForm [])
  else do
    let l ← closeLevel { l with t := l.t + 1, depth := l.depth - 1 }
    let l := fire (·.endSexpr) .endSexpr { l with state := .s1 }
    if l.depth = 0 then .error (returnTree l) else .ok l

/-- The `switch` on the byte that ended a bare atom inside a list. White space is skipped at once. -/
def afterBare (c : Byte) (l : Locals) : Locals :=
  if isWhite c then { l with state := .s1, t := l.t + 1, squoted := false }
  else if c = rparen then { l with squoted := false, state := .s3 }
  else { l with squoted := false, state := .s1 }

/-- The end of a bare atom. At the top level the byte after the atom is left unread. -/
def endBare (env : Env) (c : Byte) (l : Locals) : Exec Locals := do
  let l ← writeCur nul l
  let l ← need env { l with valUsed := l.valUsed + 1 }
  let l ← emit env (if l.squoted then .squote else .basic) l
  match link l with
  | none => .error ({ l with squoted := false, state := .s1, esc := false }.save .ok l.sx)
  | some l => .ok (afterBare c l)

/-- Inside a bare atom. -/
def state4 (env : Env) (c : Byte) (l : Locals) : Exec Locals :=
  if l.esc && isEscapable c then overwrite c l
  else if isAtomByte c then do
    let l ← storeEsc env c l
    .ok { l with t := l.t + 1 }
  else endBare env c l

/-- The closing quote, which the text of a single-quoted string keeps. -/
def closingQuote (env : Env) (l : Locals) : Exec Locals :=
  if l.squoted then store env dquote l else .ok l

/-- The end of a double-quoted string. -/
def endQuoted (env : Env) (l : Locals) : Exec Locals := do
  let l ← closingQuote env l
  let l ← writeCur nul l
  let l ← need env { l with valUsed := l.valUsed + 1 }
  let l ← emit env (if l.squoted then .squote else .dquote) { l with squoted := false }
  match link l with
  | none =>
    .error ({ l with t := l.t + 1, squoted := false, esc := false, state := .s1 }.save .ok l.sx)
  | some l => .ok { l with t := l.t + 1 }

/-- State 5 once a pending escape has been dealt with. -/
def state5Rest (env : Env) (c : Byte) (l : Locals) : Exec Locals :=
  if c = dquote then endQuoted env { l with state := .s6 }
  else do
    let l ← store env c l
    .ok { l with esc := c == backslash, t := l.t + 1 }

/-- Inside double quotes. An escaped byte is stored and the byte after it is handled in the same
round. -/
def state5 (env : Env) (c : Byte) (l : Locals) : Exec Locals :=
  if l.esc && isEscapable c then do
    let l ← overwrite c l
    let c ← env.read l.t
    state5Rest env c l
  else state5Rest env c l

/-- After the apostrophe. -/
def state7 (env : Env) (c : Byte) (l : Locals) : Exec Locals :=
  if c = dquote then do
    let l ← store env dquote { l with state := .s5, vcur := 0, t := l.t + 1 }
    .ok { l with squoted := true }
  else if c = lparen then .ok { l with vcur := 0, state := .s8 }
  else .ok { l with vcur := 0, state := .s4, squoted := true }

/-- The end of a quoted list. -/
def endQuotedList (env : Env) (l : Locals) : Exec Locals := do
  let l ← writeCur nul l
  let l ← need env l
  let l ← emit env .squote l
  match link l with
  | none => .error ({ l with squoted := false, esc := false, state := .s1 }.save .ok l.sx)
  | some l => .ok l

/-- After a closing paren of a quoted list. -/
def state9 (env : Env) (l : Locals) : Exec Locals :=
  if l.qdepth = 0 then endQuotedList env { l with state := .s1 }
  else .ok { l with state := .s8 }

/-- What state 8 does to the depth, the state and the escape flag before the byte is stored. -/
def countParen (c : Byte) (l : Locals) : Locals :=
  if l.esc then { l with esc := false }
  else if c = lparen then { l with qdepth := l.qdepth + 1 }
  else if c = rparen then { l with qdepth := l.qdepth - 1, state := .s9 }
  else if c = dquote then { l with state := .s10 }
  else l

/-- Inside a quoted list. -/
def state8 (env : Env) (c : Byte) (l : Locals) : Exec Locals := do
  let l ← storeEsc env c (countParen c l)
  let l := { l with t := l.t + 1 }
  if l.state = .s9 then state9 env l else .ok l

/-- Inside double quotes of a quoted list. -/
def state10 (env : Env) (c : Byte) (l : Locals) : Exec Locals := do
  let l ← storeEsc env c (if c = dquote ∧ l.esc = false then { l with state := .s8 } else l)
  .ok { l with t := l.t + 1 }

/-- Inside a comment. -/
def state11 (c : Byte) (l : Locals) : Exec Locals :=
  .ok { l with state := if c = newline then .s1 else .s11, t := l.t + 1 }

/-- After `#` in inline binary mode. -/
def state12 (env : Env) (c : Byte) (l : Locals) : Exec Locals :=
  if c = letterB then do
    let l ← storeEsc env c l
    .ok { l with state := .s13, t := l.t + 1 }
  else .ok { l with state := .s4 }

/-- After `#b` in inline binary mode. -/
def state13 (env : Env) (c : Byte) (l : Locals) : Exec Locals :=
  if c = hash then do
    let l ← storeEsc env c l
    .ok { l with state := .s14, vcur := 0, valUsed := 0, t := l.t + 1 }
  else .ok { l with state := .s4 }

/-- The end of the size of a binary blob. -/
def endSize (env : Env) (l : Locals) : Exec Locals := do
  let l ← writeCur nul l
  let l := { l with binexpected := toSize (atoi (cstr l.val)), binread := 0, bindata := none }
  if 0 < l.binexpected then do
    let l ← need env l
    .ok { l with bindata := some (env.fresh l.binexpected) }
  else .ok l

/-- Inside the size of a binary blob. -/
def state14 (env : Env) (c : Byte) (l : Locals) : Exec Locals :=
  if c = hash then endSize env { l with t := l.t + 1, state := .s15 }
  else do
    let l ← storeEsc env c l
    .ok { l with t := l.t + 1 }

/-- The first half of state 15: take one byte of the blob, if any is missing. -/
def readBlob (env : Env) (l : Locals) : Exec Locals :=
  if l.binread < l.binexpected then do
    let c ← env.read l.t
    match l.bindata with
    | none => .error (.fault .blob)
    | some data =>
      if l.binread < data.length then
        .ok { l with bindata := some (data.set l.binread c), binread := l.binread + 1
                     t := l.t + 1 }
      else .error (.fault .blob)
  else .ok l

/-- The end of a binary blob. Outside a list the blob is only left in `sx`. -/
def endBlob (env : Env) (l : Locals) : Exec Locals := do
  let l ← need env l
  let l := fire (·.binary) (.binary (l.bindata.getD []) l.binread)
    { l with elts := l.elts + 1, sx := [.blob l.bindata l.binread] }
  let l := { l with bindata := none, binread := 0, binexpected := 0, state := .s1
                    valUsed := 0, vcur := 0 }
  .ok ((link l).getD l)

/-- Inside a binary blob. -/
def state15 (env : Env) (l : Locals) : Exec Locals := do
  let l ← readBlob env l
  if l.binread = l.binexpected then endBlob env l else .ok l

/-- The code after the loop. -/
def finish (env : Env) (l : Locals) : Stop :=
  if l.depth = 0 ∧ 0 < l.elts then returnTree l
  else
    match env.buf[l.t]? with
    | none => .fault .input
    | some c =>
      .ret { cc := { toRegs := l.toRegs, lastSexp := []
                     lastPos := if c = nul ∨ l.t = env.len then none else some l.t
                     error := .incomplete }
             errno := .incomplete, events := l.events, cursor := l.t }

/-- The `switch`, given `t[0]`, in all states but 15. -/
def switch (env : Env) (c : Byte) (l : Locals) : Exec Locals :=
  match l.state with
  | .s1 => state1 env c l
  | .s2 => state2 env l
  | .s3 => state3 l
  | .s4 => state4 env c l
  | .s5 => state5 env c l
  | .s6 => .ok { l with vcur := 0, state := .s1 }
  | .s7 => state7 env c l
  | .s8 => state8 env c l
  | .s9 => state9 env l
  | .s10 => state10 env c l
  | .s11 => state11 c l
  | .s12 => state12 env c l
  | .s13 => state13 env c l
  | .s14 => state14 env c l
  | .s15 => state15 env l
  | .unknown => .error (l.save .unknownState [])

/-- One round of the main loop. `keepgoing` is cleared exactly when the state is not 15 and `t[0]`
is NUL, before the loop and at the end of each round, so it is tested here at the head. -/
def cparseHead (env : Env) (l : Locals) : Exec Locals :=
  if l.state = .s15 then
    if l.t = env.len then .error (finish env l) else state15 env l
  else do
    let c ← env.read l.t
    if c = nul ∨ l.t = env.len then .error (finish env l) else switch env c l

/-- The locals on entry to the loop. -/
def Pcont.enter (cc : Pcont) (allocs : Nat) : Locals :=
  { toRegs := cc.toRegs, t := cc.lastPos.getD 0, elts := 0, sx := [], allocs := allocs
    events := [] }

/-- The continuation that `init_continuation` fills in. The fields `last_sexp` and `error` are not
set by the source and not read before a parser has set them. -/
def Pcont.new (g : Setup) : Pcont :=
  { stack := makeStack, val := g.fresh g.params.startSize, valAllocated := g.params.startSize
    valUsed := 0, vcur := 0, depth := 0, qdepth := 0, state := .s1, esc := false, squoted := false
    mode := .normal, binexpected := 0, binread := 0, bindata := none, eventHandlers := none
    lastSexp := [], lastPos := none, error := .ok }

/-- `init_continuation`, with the number of allocations it asked for. -/
def initContinuation (g : Setup) : Option Pcont × Nat :=
  if !g.alloc 0 then (none, 1)
  else if !g.alloc 1 then (none, 2)
  else if !g.alloc 2 then (none, 3)
  else (some (Pcont.new g), 3)

lemma initContinuation_of_succeeds {g : Setup} (h : g.Succeeds) :
    initContinuation g = (some (Pcont.new g), 3) := by
  simp [initContinuation, h _]

lemma initContinuation_eq_new {g : Setup} {cc : Pcont} {n : Nat}
    (h : initContinuation g = (some cc, n)) : cc = Pcont.new g ∧ n = 3 := by
  rw [initContinuation] at h
  split_ifs at h <;> simp_all

/-- More rounds than the loop of a call can make. -/
def fuel (env : Env) : Nat := 4 * env.buf.length + 4

/-- The result of a loop that was run with a bound. -/
def Result.ofStop : Option Stop → Result
  | some (.ret r) => .ret r
  | some (.fault f) => .fault f
  | none => .diverges

end Sfsexp
