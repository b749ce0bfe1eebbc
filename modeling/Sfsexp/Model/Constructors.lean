import Sfsexp.Model.CString

/-!
# The constructors of elements

`new_sexp_list`, `new_sexp_binary_atom` and `new_sexp_atom`. `none` is a `NULL` element.
-/

namespace Sfsexp

/-- `new_sexp_list`. -/
def newSexpList (g : Setup) (l : List Sexp) (h : Heap) : Option Sexp × Heap :=
  if !g.alloc h.allocs then (none, h.fail) else (some (.list l), h.next)

/-- `new_sexp_binary_atom`. The element takes the block over from the caller. -/
def newSexpBinaryAtom (g : Setup) (data : Option (List Byte)) (binlength : Nat) (h : Heap) :
    Option Sexp × Heap :=
  if !g.alloc h.allocs then (none, h.fail) else (some (.blob data binlength), h.next)

/-- `new_sexp_atom`. `buf` is the memory from the argument on, of which `strcpy` copies a C string
into a block of `bs + 1` cells. -/
def newSexpAtom (g : Setup) (buf : List Byte) (bs : Nat) (aty : AtomT) (h : Heap) :
    Except Fault (Option Sexp × Heap) :=
  if aty = .binary then .ok (none, { h with errno := .badConstructor })
  else if !g.alloc h.allocs then .ok (none, h.fail)
  else if !g.alloc h.next.allocs then .ok (none, h.next.fail)
  else if nul ∉ buf then .error .input
  else if bs < (cstr buf).length then .error .atomBuffer
  else
    .ok (some (.value aty (cstr buf ++ nul :: (g.fresh (bs + 1)).drop ((cstr buf).length + 1))
      (bs + 1) (bs + 1)), h.next.next)

end Sfsexp
