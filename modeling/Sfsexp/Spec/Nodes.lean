import Sfsexp.Model.NodePrinters

/-!
# Elements and their nodes

The element that a node stands for, the blocks that the parser gave to a tree, and what it means that
nothing the library does with a tree depends on what its nodes held before.
-/

namespace Sfsexp.Spec

open Sfsexp

mutual
/-- The element that a node stands for. Which fields count is told by `ty` and `aty`. -/
def element : Node → Sexp
  | .mk s list =>
    match s.ty with
    | .list => .list (elements list)
    | .value =>
      if s.aty = .binary then .blob (s.bindata.map (·.cells)) s.binlength
      else .value s.aty (cellsAt s.val) s.valAllocated s.valUsed

def elements : List Node → List Sexp
  | [] => []
  | s :: next => element s :: elements next
end

mutual
/-- The blocks that the parser gave to the element, one after the other. -/
def parserBlocks (addr : Position → Nat) : Sexp → List Freed
  | .value _ _ valAllocated _ => [⟨addr [], valAllocated⟩]
  | .blob bindata binlength => bindata.toList.map fun _ => ⟨addr [], binlength⟩
  | .list elems => parserBlocksAll addr elems

def parserBlocksAll (addr : Position → Nat) : List Sexp → List Freed
  | [] => []
  | x :: xs =>
    parserBlocks (fun p => addr (0 :: p)) x ++ parserBlocksAll (fun p => addr (bump p)) xs
end

/-- What the library makes of the tree does not depend on what the nodes held before the parser built
the elements in them, and every block that is freed with the tree was given to it by the parser. -/
structure JunkInvisible (t : List Sexp) : Prop where
  find : ∀ addr junk junk' name,
    Nodes.findSexp name (buildNodes addr junk t) = Nodes.findSexp name (buildNodes addr junk' t)
  bfs : ∀ addr junk junk' str,
    Nodes.bfsFindSexp str (buildNodes addr junk t) =
      Nodes.bfsFindSexp str (buildNodes addr junk' t)
  print : ∀ addr junk junk' g fresh fresh' n buf size errno,
    Nodes.printSexp g fresh n buf size (buildNodes addr junk t) errno =
      Nodes.printSexp g fresh' n buf size (buildNodes addr junk' t) errno
  printCstr : ∀ addr junk junk' g fresh fresh' n s ss errno,
    Nodes.printSexpCstr g fresh n s (buildNodes addr junk t) ss errno =
      Nodes.printSexpCstr g fresh' n s (buildNodes addr junk' t) ss errno
  copy : ∀ addr junk junk' g fresh fresh' h,
    (Nodes.copySexp g fresh (buildNodes addr junk t) h).map (fun r => (elements r.1, r.2)) =
      (Nodes.copySexp g fresh' (buildNodes addr junk' t) h).map fun r => (elements r.1, r.2)
  destroy : ∀ addr junk junk',
    Nodes.destroySexp (buildNodes addr junk t) = Nodes.destroySexp (buildNodes addr junk' t)
  owned : ∀ addr junk, ∀ b ∈ Nodes.destroySexp (buildNodes addr junk t),
    b ∈ parserBlocksAll addr t

end Sfsexp.Spec
