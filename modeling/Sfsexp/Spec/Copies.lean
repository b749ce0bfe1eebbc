import Sfsexp.Model.Printer

/-!
# Copies of an expression

What a structural copy is, the expressions whose fields agree with each other, and the requests for
memory that a complete copy makes.
-/

namespace Sfsexp.Spec

open Sfsexp

mutual
/-- The second element is a copy of the first. Of a text the bytes in front of the NUL are compared,
and the copy has its NUL inside `val_allocated`; the block of a binary atom is as long as
`binlength` says. -/
def SameElement : Sexp → Sexp → Prop
  | .value aty val valAllocated valUsed, .value aty' val' valAllocated' valUsed' =>
    aty' = aty ∧ valAllocated' = valAllocated ∧ valUsed' = valUsed ∧ (val' = [] ↔ val = []) ∧
      cstr val' = cstr val ∧ (val' ≠ [] → (cstr val').length < valAllocated')
  | .blob bindata binlength, .blob bindata' binlength' =>
    binlength' = binlength ∧ bindata' = bindata.map (·.take binlength)
  | .list elems, .list elems' => SameAll elems elems'
  | _, _ => False

/-- The two chains are the same, element by element. -/
def SameAll : List Sexp → List Sexp → Prop
  | [], [] => True
  | x :: xs, y :: ys => SameElement x y ∧ SameAll xs ys
  | _, _ => False
end

mutual
/-- The fields of the element agree: a text without `val` counts no bytes, any other holds a C string
that `val_used` covers, and the block of a binary atom has the bytes that its length counts. -/
def Consistent : Sexp → Prop
  | .value _ val valAllocated valUsed =>
    (val = [] ∧ valAllocated = 0 ∧ valUsed = 0) ∨
      (val.length = valAllocated ∧ valUsed ≤ valAllocated ∧ (cstr val).length < valAllocated ∧
        (cstr val).length ≤ valUsed)
  | .blob bindata binlength => ∀ data, bindata = some data → binlength ≤ data.length
  | .list elems => ConsistentAll elems

def ConsistentAll : List Sexp → Prop
  | [] => True
  | x :: xs => Consistent x ∧ ConsistentAll xs
end

mutual
/-- No binary atom has `NULL` for its bytes. -/
def HasData : Sexp → Prop
  | .value _ _ _ _ => True
  | .blob bindata _ => bindata ≠ none
  | .list elems => HasDataAll elems

def HasDataAll : List Sexp → Prop
  | [] => True
  | x :: xs => HasData x ∧ HasDataAll xs
end

mutual
/-- The requests that a complete copy makes: a node for each element, and a block for its data. -/
def copyAllocs : Sexp → Nat
  | .value _ val _ _ => if val = [] then 1 else 2
  | .blob _ _ => 2
  | .list elems => 1 + copyAllocsAll elems

def copyAllocsAll : List Sexp → Nat
  | [] => 0
  | x :: xs => copyAllocs x + copyAllocsAll xs
end

/-- The `n` requests from the `a`-th on are granted. -/
def Granted (g : Setup) (n a : Nat) : Prop := ∀ i < n, g.alloc (a + i) = true

/-- The requests for the element itself, without those for the elements of a list. -/
def ownAllocs : Sexp → Nat
  | .list _ => 1
  | x => copyAllocs x

/-- `sexp_errno` as a failing `copy_sexp` sets it. -/
def Reported (e : ErrCode) : Prop := e = .memory ∨ e = .badContent

/-- The first element of the chain cannot be copied: it has `NULL` for its bytes, or no memory is
left for its node or its data. -/
def HeadFails (g : Setup) : List Sexp → Nat → Prop
  | [], _ => False
  | x :: _, a => (∃ n, x = .blob none n) ∨ ¬ Granted g (ownAllocs x) a

end Sfsexp.Spec
