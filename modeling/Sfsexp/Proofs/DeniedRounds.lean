import Sfsexp.Proofs.DeniedExits
import Sfsexp.Proofs.TextSessions
import Sfsexp.Spec.Denial

/-!
# Where a request is denied

The rounds of a call on a text depend on the bytes up to the cursor only, so a call can be let fail at
the same head on a text that goes on in another way.
-/

namespace Sfsexp.Proofs

open Sfsexp Spec

section Prefix

variable {g : Setup} {l l' l₀ : Locals} {c : Byte} {text text' : List Byte} {m : Nat}

/-- The texts have the first `m` bytes in common. -/
structure Common (m : Nat) (text text' : List Byte) : Prop where
  left : m ≤ text.length
  right : m ≤ text'.length
  same : text.take m = text'.take m

lemma Common.get (h : Common m text text') {t : Nat} (ht : t < m) : text[t]? = text'[t]? := by
  rw [← List.getElem?_take_of_lt ht, h.same, List.getElem?_take_of_lt ht]

lemma Common.read (h : Common m text text') {t : Nat} (ht : t < m) :
    Env.read ⟨g, text ++ [nul], text.length⟩ t = Env.read ⟨g, text' ++ [nul], text'.length⟩ t := by
  have hl := h.left
  have hr := h.right
  have hget : (text ++ [nul])[t]? = (text' ++ [nul])[t]? := by
    rw [List.getElem?_append_left (by omega), List.getElem?_append_left (by omega), h.get ht]
  dsimp only [Env.read]
  rw [hget]

end Prefix

section Heads

variable {g : Setup} {cc : Pcont} {text : List Byte} {l : Locals} {c : Byte} {i : Nat} {R : Return}
  {L₀ : List (List Sexp)}

/-- The call comes to the head with the open lists `L` and a byte of the text before it, and what the
unfailed call is about to read there is what it was about to read at first. -/
structure Comes (cc : Pcont) (L₀ : List (List Sexp)) (text : List Byte) (l : Locals)
    (L : List (List Sexp)) : Prop where
  head : GoodHead l L
  inside : l.t < text.length
  scan : scan (view cc.toRegs L₀) (text.drop (cc.lastPos.getD 0)) =
    scan (view l.toRegs L) (text.drop l.t)
  pos : cc.lastPos.getD 0 ≤ text.length

/-- There is a byte at the head. -/
lemma Comes.get {L : List (List Sexp)} (h : Comes cc L₀ text l L) (hnul : nul ∉ text) :
    ∃ c, text[l.t]? = some c ∧ c ≠ nul := by
  refine ⟨_, List.getElem?_eq_getElem h.inside, fun hc => ?_⟩
  rw [← hc] at hnul
  exact hnul (List.getElem_mem h.inside)

end Heads

end Sfsexp.Proofs
