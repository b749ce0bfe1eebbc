import Sfsexp.Spec.LimitedRuns

/-!
# Clients that parse, print and destroy

What a client does with continuations, the trees it gets from `cparse_sexp` and the strings it prints
them to, and which of its actions give all memory back.
-/

namespace Sfsexp.Spec

open Sfsexp AllocOp

/-- A binary atom that ended outside of lists is kept in `sx` until the call ends. -/
def Waits (l : Locals) : Prop := l.stack.levels = [] ∧ l.sx ≠ []

/-- With the byte `c` at the cursor the round opens or closes a list, or ends an atom that is not
binary. -/
def EndsElement (env : Env) (c : Byte) (l : Locals) : State → Prop
  | .s2 | .s3 => True
  | .s4 => ¬ (l.esc && isEscapable c) ∧ ¬ isAtomByte c
  | .s5 => if l.esc && isEscapable c then env.buf[l.t + 1]? = some dquote else c = dquote
  | .s8 => l.esc = false ∧ c = rparen ∧ l.qdepth = 1
  | .s9 => l.qdepth = 0
  | _ => False

instance (env : Env) (c : Byte) (l : Locals) : (s : State) → Decidable (EndsElement env c l s)
  | .s2 | .s3 => isTrue trivial
  | .s4 => inferInstanceAs (Decidable (¬ (l.esc && isEscapable c) ∧ ¬ isAtomByte c))
  | .s5 => inferInstanceAs (Decidable
      (if l.esc && isEscapable c then env.buf[l.t + 1]? = some dquote else c = dquote))
  | .s8 => inferInstanceAs (Decidable (l.esc = false ∧ c = rparen ∧ l.qdepth = 1))
  | .s9 => inferInstanceAs (Decidable (l.qdepth = 0))
  | .s1 | .s6 | .s7 | .s10 | .s11 | .s12 | .s13 | .s14 | .s15 | .unknown => isFalse id

/-- The round ends a binary atom. -/
def EndsBlob (l : Locals) : Prop :=
  l.state = .s15 ∧ (l.binread = l.binexpected ∨ l.binread + 1 = l.binexpected)

/-- The round goes on to another element, or meets a closing paren outside of lists, while a binary
atom is kept in `sx`. -/
def DropsAtom (env : Env) (l : Locals) : Prop :=
  Waits l ∧ l.t ≠ env.len ∧
    (EndsBlob l ∨ ∃ c ∈ env.buf[l.t]?, c ≠ nul ∧ EndsElement env c l l.state)

instance (env : Env) (l : Locals) : Decidable (DropsAtom env l) :=
  inferInstanceAs (Decidable ((l.stack.levels = [] ∧ l.sx ≠ []) ∧ l.t ≠ env.len ∧
    ((l.state = .s15 ∧ (l.binread = l.binexpected ∨ l.binread + 1 = l.binexpected)) ∨
      ∃ c ∈ env.buf[l.t]?, c ≠ nul ∧ EndsElement env c l l.state)))

/-- The round ends the size of a binary atom while the bytes of another one are still held. A call
that returned in the middle of that one left them behind. -/
def DropsBytes (env : Env) (l : Locals) : Prop :=
  l.state = .s14 ∧ l.t ≠ env.len ∧ env.buf[l.t]? = some hash ∧ l.bindata ≠ none ∧ 0 < l.binexpected

instance (env : Env) (l : Locals) : Decidable (DropsBytes env l) :=
  inferInstanceAs (Decidable (_ ∧ _ ∧ _ ∧ l.bindata ≠ none ∧ _))

/-- No round from `l` on drops a binary atom, or the bytes of one. -/
def DropsNone (env : Env) (l : Locals) : Prop :=
  ∀ l', Loop.Reaches (cparseHead env) l l' → ¬ DropsAtom env l' ∧ ¬ DropsBytes env l'

/-- The call drops no binary atom, and no bytes of one. -/
def KeepsTrees (k : ParseCall) : Prop :=
  match k.str, k.lc with
  | none, _ => True
  | some buf, some cc => DropsNone ⟨k.setup, buf, k.len⟩ (cc.enter 0)
  | some buf, none =>
    ∀ cc allocs, initContinuation k.setup = (some cc, allocs) →
      DropsNone ⟨k.setup, buf, k.len⟩ (cc.enter allocs)

/-- What a client does. -/
inductive TreeAct where
  | initContinuation
  | configure
  | cparseSexp (k : ParseCall)
  | printSexp (size : Nat) (sx : List Sexp)
  | printSexpCstr (str : Option CString) (sx : List Sexp)
  | sempty
  | destroySexp
  | sdestroy
  | destroyContinuation

/-- The action gives back all the memory it asks for, but for what the client has afterwards. The
printers do not give back the bytes of a copied binary atom, nor a new string when there is nothing to
copy. -/
def GivesBack : TreeAct → Prop
  | .cparseSexp k => KeepsTrees k
  | .printSexp size sx =>
    0 < size → ∀ bindata n, sx.head? = some (.blob bindata n) → bindata = none ∨ n = 0
  | .printSexpCstr str sx =>
    ∀ bindata n, sx.head? = some (.blob bindata n) →
      if bindata = none then str ≠ none else n = 0
  | _ => True

end Sfsexp.Spec
