import Sfsexp.Model.LimitedPrinters

/-!
# The blocks behind a value

Which blocks a chain of elements, a stack and a continuation consist of, by their sizes.
-/

namespace Sfsexp.Spec

open Sfsexp

variable (z : Sizes)

/-- A buffer of `n` bytes, unless its pointer is `NULL`. -/
def buffer (val : List Byte) (n : Nat) : Multiset Nat := if val = [] then 0 else {n}

/-- The bytes of a binary atom. -/
def binary (bindata : Option (List Byte)) (n : Nat) : Multiset Nat := if bindata.isSome then {n} else 0

mutual
/-- The blocks of a chain. -/
def blocks : List Sexp → Multiset Nat
  | [] => 0
  | s :: next => content s + blocks next + {z.sexpT}

/-- The blocks of an element but for its node. -/
def content : Sexp → Multiset Nat
  | .value _ val valAllocated _ => buffer val valAllocated
  | .blob bindata binlength => binary bindata binlength
  | .list elems => blocks elems
end

/-- The blocks of a string. -/
def stringBlocks (s : Option CString) : Multiset Nat := s.elim 0 fun s => {s.len} + {z.cstring}

/-- A list, or a text atom with a buffer. -/
def Disposable : Sexp → Prop
  | .value _ val valAllocated _ => val ≠ [] ∧ 0 < valAllocated
  | .blob _ _ => False
  | .list _ => True

instance : (x : Sexp) → Decidable (Disposable x)
  | .value _ val valAllocated _ => inferInstanceAs (Decidable (val ≠ [] ∧ 0 < valAllocated))
  | .blob _ _ => isFalse id
  | .list _ => isTrue trivial

mutual
/-- The buffers of the text atoms have cells. -/
def Sized : Sexp → Prop
  | .value _ val valAllocated _ => val ≠ [] → 0 < valAllocated
  | .blob _ _ => True
  | .list elems => SizedAll elems

def SizedAll : List Sexp → Prop
  | [] => True
  | x :: xs => Sized x ∧ SizedAll xs
end

/-- The blocks of the levels that are in use. -/
def levelBlocks : List (List Sexp) → Multiset Nat
  | [] => 0
  | fst :: rest => blocks z fst + {z.parseData} + levelBlocks rest

/-- The blocks of a parse stack. -/
def stackBlocks (s : Faststack) : Multiset Nat :=
  levelBlocks z s.levels + Multiset.replicate (s.levels.length + s.spare) z.stackLvl + {z.faststack}

/-- The blocks of a continuation, or of the locals of a parser that runs on it. -/
def owned (r : Regs) : Multiset Nat :=
  buffer r.val r.valAllocated + (binary r.bindata r.binexpected + stackBlocks z r.stack + {z.pcont})

/-- An element that the round ends without returning it belongs to a list. Only a binary atom outside
of lists breaks this: the parser keeps it in a local variable until the next element ends. -/
def Nested (env : Env) (l : Locals) : Prop :=
  ∀ l', cparseHead env l = .ok l' → l.elts < l'.elts → l'.stack.levels ≠ []

/-- All rounds from `l` on are such. -/
def StaysNested (env : Env) (l : Locals) : Prop :=
  ∀ l', Loop.Reaches (cparseHead env) l l' → Nested env l'

end Sfsexp.Spec
