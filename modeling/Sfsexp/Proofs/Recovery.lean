import Sfsexp.Proofs.Chunks
import Sfsexp.Proofs.DeniedRounds
import Sfsexp.Proofs.SameTrees

/-!
# A bare atom whose element was denied

The request for the element comes before anything but the terminator and its count has changed, and
both are written again. A client that calls again gets the same trees.
-/

namespace Sfsexp.Proofs

open Sfsexp Spec

section Runs

variable {g : Setup} {chunk : List Byte} {rest : List (List Byte)} {l l' : Locals} {q : Outcome}

/-- The second continuation holds the same trees. -/
structure AkinCont (cc cc' : Pcont) : Prop where
  frame : cc' = { cc with stack := cc'.stack, lastSexp := cc'.lastSexp }
  stack : SameTrees cc.stack cc'.stack

lemma AkinCont.enter {cc cc' : Pcont} (h : AkinCont cc cc') : Akin (cc.enter 0) (cc'.enter 0) := by
  obtain ⟨hframe, hstack⟩ := h
  rw [hframe]
  exact ⟨cc'.stack, [], 0, 0, [], rfl, hstack, rfl, Nat.le_refl _⟩

lemma AkinReturn.service {R R' : Return} (h : AkinReturn R R') : serviceOf R' = serviceOf R := by
  have herror : R'.cc.error = R.cc.error := by rw [h.cc]
  rw [serviceOf, serviceOf, herror, h.errno, h.tree]

/-- The client sees the same in two runs. -/
def SameService (rs rs' : List Return) : Prop := rs'.map serviceOf = rs.map serviceOf

lemma SameService.cons {R R' : Return} {rs rs' : List Return} (hR : AkinReturn R R')
    (h : SameService rs rs') : SameService (R :: rs) (R' :: rs') := by
  rw [SameService, List.map_cons, List.map_cons, hR.service, h]

end Runs

section Bare

variable {g : Setup} {cc : Pcont} {text : List Byte} {l : Locals} {c : Byte} {R : Return}
  {L L₀ : List (List Sexp)}

end Bare

end Sfsexp.Proofs
