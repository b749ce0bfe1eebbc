import Sfsexp.Proofs.Stack

/-!
# How a token ends

At the top level the end of a token leaves the parser with the new atom; inside a list the atom is
added to the children read so far.
-/

namespace Sfsexp.Proofs

open Sfsexp

/-- The locals when the terminator was written and counted. -/
def terminated (l : Locals) : Locals :=
  { l with val := l.val.set l.vcur nul, valUsed := l.valUsed + 1, allocs := l.allocs + 1 }

@[simp] lemma terminated_state (l : Locals) : (terminated l).state = l.state := rfl

@[simp] lemma terminated_esc (l : Locals) : (terminated l).esc = l.esc := rfl

@[simp] lemma terminated_qdepth (l : Locals) : (terminated l).qdepth = l.qdepth := rfl

@[simp] lemma terminated_t (l : Locals) : (terminated l).t = l.t := rfl

/-- The locals when the text of a quoted list was terminated; its NUL is not counted. -/
def terminatedList (l : Locals) : Locals :=
  { l with val := l.val.set l.vcur nul, allocs := l.allocs + 1 }

/-- The atom in the buffer. -/
def atomOf (aty : AtomT) (l : Locals) : Sexp := .value aty l.val l.valAllocated l.valUsed

mutual
/-- Every buffer of the element holds a C string that `val_used` covers. -/
def Sealed : Sexp → Prop
  | .value _ val valAllocated valUsed =>
    val.length = valAllocated ∧ valUsed ≤ valAllocated ∧ (cstr val).length < valAllocated ∧
      (cstr val).length ≤ valUsed
  | .blob _ _ => False
  | .list elems => SealedAll elems

def SealedAll : List Sexp → Prop
  | [] => True
  | x :: xs => Sealed x ∧ SealedAll xs
end

mutual
/-- Every text is sealed, and every binary atom holds the bytes its length counts. -/
def Whole : Sexp → Prop
  | .value aty val valAllocated valUsed => Sealed (.value aty val valAllocated valUsed)
  | .blob bindata binlength => (bindata.getD []).length = binlength
  | .list elems => WholeAll elems

def WholeAll : List Sexp → Prop
  | [] => True
  | x :: xs => Whole x ∧ WholeAll xs
end

mutual
lemma Sealed.whole {x : Sexp} (h : Sealed x) : Whole x := by
  match x, h with
  | .value aty val valAllocated valUsed, h => exact h
  | .list elems, h => exact SealedAll.whole h

lemma SealedAll.whole {xs : List Sexp} (h : SealedAll xs) : WholeAll xs := by
  match xs, h with
  | [], _ => trivial
  | x :: xs, h => exact ⟨Sealed.whole h.1, SealedAll.whole h.2⟩
end

lemma sealedAll_concat {T : List Sexp} {x : Sexp} (hT : SealedAll T) (hx : Sealed x) :
    SealedAll (T ++ [x]) := by
  induction T with
  | nil => exact ⟨hx, trivial⟩
  | cons y T ih => exact ⟨hT.1, ih hT.2⟩

/-- The children of every open list are sealed. -/
def SealedLevels (L : List (List Sexp)) : Prop := ∀ T ∈ L, SealedAll T

lemma sealedLevels_nil : SealedLevels [] := by simp [SealedLevels]

lemma sealedLevels_open {L : List (List Sexp)} (h : SealedLevels L) : SealedLevels ([] :: L) :=
  List.forall_mem_cons.mpr ⟨trivial, h⟩

lemma sealedLevels_concat {T : List Sexp} {L : List (List Sexp)} {x : Sexp}
    (h : SealedLevels (T :: L)) (hx : Sealed x) : SealedLevels ((T ++ [x]) :: L) := by
  obtain ⟨hT, hL⟩ := List.forall_mem_cons.mp h
  exact List.forall_mem_cons.mpr ⟨sealedAll_concat hT hx, hL⟩

lemma sealedLevels_close {T T' : List Sexp} {L : List (List Sexp)}
    (h : SealedLevels (T :: T' :: L)) : SealedLevels ((T' ++ [.list T]) :: L) := by
  obtain ⟨hT, hL⟩ := List.forall_mem_cons.mp h
  exact sealedLevels_concat hL hT

section Ends

variable {env : Env} {l : Locals} {c : Byte} {T : List Sexp} {Ls : List (List Sexp)}

def bareType (l : Locals) : AtomT := if l.squoted then .squote else .basic

def quotedType (l : Locals) : AtomT := if l.squoted then .squote else .dquote

lemma endBare_eq (h : env.Succeeds) (hlt : l.vcur < l.val.length) :
    endBare env c l =
      match link (emitted env (bareType l) (terminated l)) with
      | none =>
        .error ({ emitted env (bareType l) (terminated l) with
          squoted := false, state := .s1, esc := false }.save .ok [atomOf (bareType l) (terminated l)])
      | some l' => .ok (afterBare c l') := by
  rw [endBare, writeCur_ok hlt]
  simp only [ok_bind, need_ok h, emit_ok h]
  rfl

lemma endBare_top (h : env.Succeeds) (hlt : l.vcur < l.val.length) (hs : StackOk l.stack []) :
    endBare env c l =
      .error ({ emitted env (bareType l) (terminated l) with
        squoted := false, state := .s1, esc := false }.save .ok
          [atomOf (bareType l) (terminated l)]) := by
  have hlink : link (emitted env (bareType l) (terminated l)) = none := link_empty hs
  rw [endBare_eq h hlt, hlink]

lemma endBare_open (h : env.Succeeds) (hlt : l.vcur < l.val.length)
    (hs : StackOk l.stack (T :: Ls)) :
    ∃ s, endBare env c l =
        .ok (afterBare c { emitted env (bareType l) (terminated l) with stack := s }) ∧
      StackOk s ((T ++ [atomOf (bareType l) (terminated l)]) :: Ls) := by
  have hs' : StackOk (emitted env (bareType l) (terminated l)).stack (T :: Ls) := hs
  obtain ⟨s, hlink, hok⟩ := link_open hs'
  refine ⟨s, ?_, hok⟩
  rw [endBare_eq h hlt, hlink]

lemma endQuoted_eq (h : env.Succeeds) {l' : Locals} (hq : closingQuote env l = .ok l')
    (hlt : l'.vcur < l'.val.length) :
    endQuoted env l =
      match link (emitted env (quotedType l') { terminated l' with squoted := false }) with
      | none =>
        .error ({ emitted env (quotedType l') { terminated l' with squoted := false } with
          t := l'.t + 1, squoted := false, esc := false, state := .s1 }.save .ok
            [atomOf (quotedType l') (terminated l')])
      | some l' => .ok { l' with t := l'.t + 1 } := by
  rw [endQuoted, hq, ok_bind, writeCur_ok hlt]
  simp only [ok_bind, need_ok h, emit_ok h]
  rfl

lemma endQuoted_top (h : env.Succeeds) {l' : Locals} (hq : closingQuote env l = .ok l')
    (hlt : l'.vcur < l'.val.length) (hs : StackOk l'.stack []) :
    endQuoted env l =
      .error ({ emitted env (quotedType l') { terminated l' with squoted := false } with
        t := l'.t + 1, squoted := false, esc := false, state := .s1 }.save .ok
          [atomOf (quotedType l') (terminated l')]) := by
  have hlink : link (emitted env (quotedType l') { terminated l' with squoted := false }) = none :=
    link_empty hs
  rw [endQuoted_eq h hq hlt, hlink]

lemma endQuoted_open (h : env.Succeeds) {l' : Locals} (hq : closingQuote env l = .ok l')
    (hlt : l'.vcur < l'.val.length) (hs : StackOk l'.stack (T :: Ls)) :
    ∃ s, endQuoted env l =
        .ok { emitted env (quotedType l') { terminated l' with squoted := false } with
          stack := s, t := l'.t + 1 } ∧
      StackOk s ((T ++ [atomOf (quotedType l') (terminated l')]) :: Ls) := by
  have hs' : StackOk (emitted env (quotedType l') { terminated l' with squoted := false }).stack
      (T :: Ls) := hs
  obtain ⟨s, hlink, hok⟩ := link_open hs'
  refine ⟨s, ?_, hok⟩
  rw [endQuoted_eq h hq hlt, hlink]
  rfl

lemma endQuotedList_eq (h : env.Succeeds) (hlt : l.vcur < l.val.length) :
    endQuotedList env l =
      match link (emitted env .squote (terminatedList l)) with
      | none =>
        .error ({ emitted env .squote (terminatedList l) with
          squoted := false, esc := false, state := .s1 }.save .ok
            [atomOf .squote (terminatedList l)])
      | some l => .ok l := by
  rw [endQuotedList, writeCur_ok hlt]
  simp only [ok_bind, need_ok h, emit_ok h]
  rfl

lemma endQuotedList_top (h : env.Succeeds) (hlt : l.vcur < l.val.length)
    (hs : StackOk l.stack []) :
    endQuotedList env l =
      .error ({ emitted env .squote (terminatedList l) with
        squoted := false, esc := false, state := .s1 }.save .ok
          [atomOf .squote (terminatedList l)]) := by
  have hlink : link (emitted env .squote (terminatedList l)) = none := link_empty hs
  rw [endQuotedList_eq h hlt, hlink]

lemma endQuotedList_open (h : env.Succeeds) (hlt : l.vcur < l.val.length)
    (hs : StackOk l.stack (T :: Ls)) :
    ∃ s, endQuotedList env l =
        .ok { emitted env .squote (terminatedList l) with stack := s } ∧
      StackOk s ((T ++ [atomOf .squote (terminatedList l)]) :: Ls) := by
  have hs' : StackOk (emitted env .squote (terminatedList l)).stack (T :: Ls) := hs
  obtain ⟨s, hlink, hok⟩ := link_open hs'
  refine ⟨s, ?_, hok⟩
  rw [endQuotedList_eq h hlt, hlink]

end Ends

end Sfsexp.Proofs
