import Sfsexp.Lib.Loop
import Sfsexp.Model.EventParser

/-!
# Calls of the parsers

The functions a client calls. A call is given the memory its cursor moves in: the string it
passes, or, when `lastPos` is set, what `sbuffer` points to by now.
-/

namespace Sfsexp

/-- `eparse_sexp` on a continuation. -/
def eparseSexp (g : Setup) (buf : List Byte) (len : Nat) (cc : Pcont) (errno : ErrCode) : Result :=
  let env : EventEnv := { toSetup := g, buf := buf, len := len, cc := cc, errno := errno }
  Result.ofStop (Loop.run env.eparseHead (fuel env.toEnv) (cc.enter 0))

/-- The part of `cparse_sexp` after the locals are set up. -/
def runParser (g : Setup) (buf : List Byte) (len : Nat) (cc : Pcont) (allocs : Nat) : Result :=
  let env : Env := { toSetup := g, buf := buf, len := len }
  Result.ofStop (Loop.run (cparseHead env) (fuel env) (cc.enter allocs))

/-- `cparse_sexp`. `str` and `lc` may be `NULL`; `errno` is `sexp_errno` before the call. -/
def cparseSexp (g : Setup) (str : Option (List Byte)) (len : Nat) (lc : Option Pcont)
    (errno : ErrCode) : Result :=
  match str, lc with
  | none, some cc =>
    .ret { cc := { cc with error := .nullString, lastSexp := [] }
           errno := errno, events := [], cursor := 0 }
  | none, none =>
    match initContinuation g with
    | (none, _) => .null .memory
    | (some cc, _) =>
      .ret { cc := { cc with error := .nullString, lastSexp := [] }
             errno := errno, events := [], cursor := 0 }
  | some buf, some cc =>
    if cc.mode = .eventsOnly then eparseSexp g buf len cc errno
    else runParser g buf len cc 0
  | some buf, none =>
    match initContinuation g with
    | (none, _) => .null .memory
    | (some cc, allocs) => runParser g buf len cc allocs

/-- A call on a continuation: what it finds around it, the memory at `sbuffer`, and its `len`. -/
structure Call where
  setup : Setup
  buf : List Byte
  len : Nat
  errno : ErrCode

def Call.env (k : Call) : Env := { toSetup := k.setup, buf := k.buf, len := k.len }

/-- The call that passes a text in a string of its own. -/
def Call.plain (text : List Byte) : Call := ⟨.plain, text ++ [nul], text.length, .ok⟩

/-- The loop that a call on `cc` runs. -/
def Call.head (k : Call) (cc : Pcont) : Locals → Exec Locals :=
  if cc.mode = .eventsOnly then
    EventEnv.eparseHead { toEnv := k.env, cc := cc, errno := k.errno }
  else cparseHead k.env

lemma cparseSexp_eq_run (k : Call) (cc : Pcont) :
    cparseSexp k.setup (some k.buf) k.len (some cc) k.errno =
      Result.ofStop (Loop.run (k.head cc) (fuel k.env) (cc.enter 0)) := by
  by_cases hm : cc.mode = .eventsOnly
  · simp only [cparseSexp, Call.head, hm, if_true]
    rfl
  · simp only [cparseSexp, Call.head, hm, if_false]
    rfl

/-- The continuations that a client can hold when every round of the calls it made met `C`: it
makes one, sets its mode and handlers, and passes it to calls. -/
inductive Session (C : Env → Locals → Prop) : Pcont → Prop where
  | start {g : Setup} {cc : Pcont} {n : Nat} (h : initContinuation g = (some cc, n)) : Session C cc
  | configure {cc : Pcont} (h : Session C cc) (mode : ParserMode) (handlers : Option Handlers) :
      Session C { cc with mode := mode, eventHandlers := handlers }
  | call {cc : Pcont} {k : Call} {allocs : Nat} {l : Locals} {r : Return} (h : Session C cc)
      (hrun : Loop.ReachesWhile (k.head cc) (C k.env) (cc.enter allocs) l) (hlast : C k.env l)
      (hret : k.head cc l = .error (.ret r)) : Session C r.cc

/-- `parse_sexp`; `none` where the run is undefined. The empty chain is the `NULL` result, and `g'`
is the setup of the second call. -/
def parseSexp (g g' : Setup) (s : Option (List Byte)) (len : Nat) (errno : ErrCode) :
    Option (List Sexp) :=
  match s with
  | none => some []
  | some buf =>
    if len < 1 then some []
    else
      match cparseSexp g (some buf) len none errno with
      | .ret r =>
        if r.errno = .incomplete ∧ r.cc.lastPos = none then
          -- the dummy newline that ends a bare atom
          match cparseSexp g' (some [newline, nul]) 2 (some r.cc) r.errno with
          | .ret r => some r.cc.lastSexp
          | .null _ => some []
          | _ => none
        else some r.cc.lastSexp
      | .null _ => some []
      | _ => none

/-- What a call returns. -/
def Result.returnOf : Result → Option Return
  | .ret r => some r
  | _ => none

lemma of_returnOf {x : Result} {r : Return} (h : x.returnOf = some r) : x = .ret r := by
  cases x <;> cases h
  rfl

lemma ret_of_ofStop {x : Option Stop} {r : Return} (h : (Result.ofStop x).returnOf = some r) :
    x = some (.ret r) := by
  cases x with
  | none => cases h
  | some stop =>
    cases stop <;> cases h
    rfl

/-- A run of the loop that was computed leads on in a session. -/
lemma Session.of_run {C : Env → Locals → Prop} {cc : Pcont} {k : Call} {allocs n : Nat} {r : Return}
    (h : Session C cc) (hrun : Loop.run (k.head cc) n (cc.enter allocs) = some (.ret r))
    (hC : ∀ l ∈ Loop.heads (k.head cc) n (cc.enter allocs), C k.env l) : Session C r.cc := by
  obtain ⟨l, hreach, hl, hexit⟩ := Loop.exit_while_of_run hrun hC
  exact h.call hreach hl hexit

/-- So does a call. -/
lemma Session.of_call {C : Env → Locals → Prop} {cc : Pcont} {k : Call} {r : Return}
    (h : Session C cc)
    (hret : (cparseSexp k.setup (some k.buf) k.len (some cc) k.errno).returnOf = some r)
    (hC : ∀ l ∈ Loop.heads (k.head cc) (fuel k.env) (cc.enter 0), C k.env l) : Session C r.cc := by
  rw [cparseSexp_eq_run] at hret
  exact h.of_run (ret_of_ofStop hret) hC

/-- And a call of `cparse_sexp` on `NULL`. -/
lemma session_of_run {C : Env → Locals → Prop} {g : Setup} {buf : List Byte} {len : Nat}
    {errno : ErrCode} {r : Return} (hg : g.Succeeds)
    (hret : (cparseSexp g (some buf) len none errno).returnOf = some r)
    (hC : ∀ l ∈ Loop.heads (cparseHead ⟨g, buf, len⟩) (fuel ⟨g, buf, len⟩)
      ((Pcont.new g).enter 3), C ⟨g, buf, len⟩ l) : Session C r.cc := by
  have hinit := initContinuation_of_succeeds hg
  have hhead : Call.head ⟨g, buf, len, errno⟩ (Pcont.new g) = cparseHead ⟨g, buf, len⟩ := rfl
  rw [cparseSexp] at hret
  simp only [hinit] at hret
  rw [runParser] at hret
  exact Session.of_run (k := ⟨g, buf, len, errno⟩) (.start hinit)
    (by rw [hhead]; exact ret_of_ofStop hret) (by rw [hhead]; exact hC)

/-- The undefined behaviour a call runs into. -/
def Result.faultOf : Result → Option Fault
  | .fault f => some f
  | _ => none

end Sfsexp
