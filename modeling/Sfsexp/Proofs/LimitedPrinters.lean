import Sfsexp.Proofs.LimitedParser
import Sfsexp.Proofs.Printing

/-!
# The memory of copies and printers

A copy consists of the blocks that were asked for, whatever fails. A printer gives back its stack and
its copy of the first element, so that nothing but the string is left.
-/

namespace Sfsexp.Proofs

open Sfsexp Spec Metered AllocOp

section Erasure

variable {z : Sizes} {g : StringSetup} {o : Output} {l : PrintLocals}

@[simp] lemma value_saddch {c : Byte} : (Limited.saddch g c o).value = saddch g c o := rfl

@[simp] lemma value_sadd {a : List Byte} : (Limited.sadd g a o).value = sadd g a o := rfl

@[simp] lemma value_printEscape {aty : AtomT} {c : Byte} :
    (Limited.printEscape g aty c o).value = printEscape g aty c o := by
  rw [Limited.printEscape, printEscape]
  split_ifs
  · rfl
  · rfl

lemma value_printText (aty : AtomT) (val : List Byte) (o : Output) :
    (Limited.printText g aty val o).value = printText g aty val o := by
  induction val generalizing o with
  | nil => rfl
  | cons c cs ih =>
    rw [Limited.printText, printText]
    split_ifs
    · rfl
    · simp [ih]

@[simp] lemma value_openQuote {aty : AtomT} :
    (Limited.openQuote g aty o).value = openQuote g aty o := by
  rw [Limited.openQuote, openQuote]
  split_ifs
  · rfl
  · rfl
  · rfl

@[simp] lemma value_closeQuote {aty : AtomT} :
    (Limited.closeQuote g aty o).value = closeQuote g aty o := by
  rw [Limited.closeQuote, closeQuote]
  split_ifs
  · rfl
  · rfl

@[simp] lemma value_printVal {aty : AtomT} {val : List Byte} {valUsed : Nat} :
    (Limited.printVal g aty val valUsed o).value = printVal g aty val valUsed o := by
  rw [Limited.printVal, printVal]
  split_ifs
  · exact value_printText aty val o
  · rfl

lemma value_printBytes (bytes : List Byte) (o : Output) :
    (Limited.printBytes g bytes o).value = printBytes g bytes o := by
  induction bytes generalizing o with
  | nil => rfl
  | cons c cs ih =>
    rw [Limited.printBytes, printBytes]
    simp [ih]

lemma value_printAtom (x : Sexp) (o : Output) :
    (Limited.printAtom g x o).value = printAtom g x o := by
  cases x with
  | value aty val valAllocated valUsed => simp [Limited.printAtom, printAtom]
  | blob bindata binlength =>
    rw [Limited.printAtom, printAtom, value_bind, value_sadd]
    congr 1
    funext o'
    split_ifs
    · rfl
    · simp [value_printBytes]
  | list elems => rfl

@[simp] lemma value_attempt {α : Type} (x : Metered Fault α) :
    (Limited.attempt x).value = attempt x.value := by
  rw [Limited.attempt, value_mapError]
  cases x.value <;> rfl

@[simp] lemma value_printPush {data : List Sexp} :
    (Limited.printPush z g data l).value = .ok (printPush g.toSetup data l) := rfl

@[simp] lemma value_separate {xs : List Sexp} :
    (Limited.separate g xs o).value = separate g xs o := by
  rw [Limited.separate, separate]
  split_ifs
  · rfl
  · rfl

@[simp] lemma value_printParen : (Limited.printParen g l).value = printParen g l := by
  rw [Limited.printParen, printParen]
  split_ifs
  · simp
  · rfl

@[simp] lemma value_printNext : (Limited.printNext g l).value = printNext g l := by
  rw [Limited.printNext, printNext]
  rcases l.stack.levels with _ | ⟨_ | ⟨x, xs⟩, rest⟩
  · rfl
  · rfl
  · simp

lemma value_printClose : (Limited.printClose g l).value = printClose g l := by
  rw [Limited.printClose, printClose]
  rcases l.stack.pop with _ | ⟨data, stack⟩
  · rfl
  · simp

/-- Without its meter a round is a round of `print_sexp_cstr`. -/
lemma value_printHead : (Limited.printHead z g l).value = printHead g l := by
  rw [Limited.printHead, printHead]
  rcases l.stack.levels with _ | ⟨_ | ⟨x, xs⟩, rest⟩
  · rfl
  · exact value_printClose
  · cases x with
    | list elems => simp
    | _ => simp [value_printAtom]

lemma value_closeParens (depth : Nat) (o : Output) :
    (Limited.closeParens g depth o).value = closeParens g depth o := by
  induction depth generalizing o with
  | zero => rfl
  | succ depth ih =>
    rw [Limited.closeParens, closeParens]
    simp [ih]

mutual
lemma value_copyElement (g : Setup) (x : Sexp) (h : Heap) :
    (Limited.copyElement z g x h).value = copyElement g x h := by
  cases x with
  | value aty val valAllocated valUsed =>
    rw [Limited.copyElement, copyElement]
    split_ifs
    · rfl
    · rw [value_bind, value_charge]
      rfl
  | blob bindata binlength =>
    rw [Limited.copyElement, copyElement]
    split_ifs
    · rfl
    · rw [value_bind, value_charge]
      rfl
  | list elems =>
    rw [Limited.copyElement, copyElement]
    split_ifs
    · rfl
    · rw [value_bind, value_charge]
      change (Limited.copySexp z g elems h.next >>= _).value = _
      rw [value_bind, value_copySexp g elems h.next]
      cases copySexp g elems h.next <;> rfl

lemma value_copySexp (g : Setup) (xs : List Sexp) (h : Heap) :
    (Limited.copySexp z g xs h).value = copySexp g xs h := by
  cases xs with
  | nil =>
    rw [Limited.copySexp, copySexp]
    rfl
  | cons x xs =>
    rw [Limited.copySexp, copySexp, value_bind, value_copyElement g x h]
    rcases copyElement g x h with _ | ⟨_ | y, h'⟩
    · rfl
    · rfl
    · change (Limited.copySexp z g xs h' >>= _).value = _
      rw [value_bind, value_copySexp g xs h']
      change _ = (copySexp g xs h').map _
      cases copySexp g xs h' <;> rfl
end

end Erasure

/-- A piece of a printer that turns the blocks `m` into those of its string. -/
abbrev KeepsString (z : Sizes) (m : Multiset Nat) (x : Metered Fault Output) : Prop :=
  Settles m x (fun o => stringBlocks z o.str) fun _ => none

section Strings

variable {z : Sizes} {g : StringSetup} {o : Output}

lemma keepsString_pure : KeepsString z (stringBlocks z o.str) (pure o) := turns_nil

lemma keepsString_fault {m : Multiset Nat} {f : Fault} : KeepsString z m (lift (.error f)) := by
  intro m' hm'
  cases hm'

/-- The buffer of the string grows in place of the old one. -/
lemma keepsString_append (h : g.Succeeds) (a : List Byte) :
    KeepsString z (stringBlocks z o.str) (Limited.append g a o) := by
  cases hstr : o.str with
  | none =>
    have hrun : (Limited.append g a o).value = .ok o := by
      rw [Limited.append, append, hstr]
    rw [KeepsString, settles_ok hrun, Limited.append, hstr]
    exact turns_nil
  | some s =>
    by_cases hfull : s.curlen + a.length ≥ s.len
    · cases hwrite : CString.write a { s with
          base := s.base ++ g.fresh (g.growsize + a.length)
          len := s.len + (g.growsize + a.length) } with
      | error f =>
        have hrun : (Limited.append g a o).value = .error f := by
          simp only [Limited.append, append, hstr, if_pos hfull, h _, if_true, hwrite]
          rfl
        rw [KeepsString, settles_error hrun]
        intro m' hm'
        cases hm'
      | ok s' =>
        have hrun : (Limited.append g a o).value = .ok { o.next with str := some s' } := by
          simp only [Limited.append, append, hstr, if_pos hfull, h _, if_true, hwrite]
          rfl
        have hlen : s'.len = s.len + (g.growsize + a.length) := by
          rw [CString.write] at hwrite
          split_ifs at hwrite
          cases hwrite
          rfl
        rw [KeepsString, settles_ok hrun, Limited.append, hstr]
        simp only [if_pos (And.intro hfull (h o.allocs)), stringBlocks, Option.elim_some, hlen]
        exact turns_realloc rfl rfl
    · cases hwrite : CString.write a s with
      | error f =>
        have hrun : (Limited.append g a o).value = .error f := by
          simp only [Limited.append, append, hstr, if_neg hfull, hwrite]
          rfl
        rw [KeepsString, settles_error hrun]
        intro m' hm'
        cases hm'
      | ok s' =>
        have hrun : (Limited.append g a o).value = .ok { o with str := some s' } := by
          simp only [Limited.append, append, hstr, if_neg hfull, hwrite]
          rfl
        have hlen : s'.len = s.len := by
          rw [CString.write] at hwrite
          split_ifs at hwrite
          cases hwrite
          rfl
        rw [KeepsString, settles_ok hrun, Limited.append, hstr]
        simp only [if_neg fun hboth : s.curlen + a.length ≥ s.len ∧ g.alloc o.allocs = true =>
          hfull hboth.1, stringBlocks, Option.elim_some, hlen]
        exact turns_nil

lemma keepsString_saddch (h : g.Succeeds) (c : Byte) :
    KeepsString z (stringBlocks z o.str) (Limited.saddch g c o) :=
  keepsString_append h [c]

lemma keepsString_printEscape (h : g.Succeeds) (aty : AtomT) (c : Byte) :
    KeepsString z (stringBlocks z o.str) (Limited.printEscape g aty c o) := by
  rw [Limited.printEscape]
  split_ifs
  · exact keepsString_saddch h backslash
  · exact keepsString_pure

lemma keepsString_printText (h : g.Succeeds) (aty : AtomT) (val : List Byte) (o : Output) :
    KeepsString z (stringBlocks z o.str) (Limited.printText g aty val o) := by
  induction val generalizing o with
  | nil => exact keepsString_fault
  | cons c cs ih =>
    rw [Limited.printText]
    split_ifs
    · exact keepsString_pure
    · exact Settles.bind (keepsString_printEscape h aty c) fun o₁ _ =>
        Settles.bind (keepsString_saddch h c) fun o₂ _ => ih o₂

lemma keepsString_openQuote (h : g.Succeeds) (aty : AtomT) :
    KeepsString z (stringBlocks z o.str) (Limited.openQuote g aty o) := by
  rw [Limited.openQuote]
  split_ifs
  · exact keepsString_saddch h dquote
  · exact keepsString_saddch h tick
  · exact keepsString_pure

lemma keepsString_closeQuote (h : g.Succeeds) (aty : AtomT) :
    KeepsString z (stringBlocks z o.str) (Limited.closeQuote g aty o) := by
  rw [Limited.closeQuote]
  split_ifs
  · exact keepsString_saddch h dquote
  · exact keepsString_pure

lemma keepsString_printVal (h : g.Succeeds) (aty : AtomT) (val : List Byte) (valUsed : Nat) :
    KeepsString z (stringBlocks z o.str) (Limited.printVal g aty val valUsed o) := by
  rw [Limited.printVal]
  split_ifs
  · exact keepsString_printText h aty val o
  · exact keepsString_pure

lemma keepsString_printBytes (h : g.Succeeds) (bytes : List Byte) (o : Output) :
    KeepsString z (stringBlocks z o.str) (Limited.printBytes g bytes o) := by
  induction bytes generalizing o with
  | nil => exact keepsString_pure
  | cons c cs ih => exact Settles.bind (keepsString_saddch h c) fun o₁ _ => ih o₁

lemma keepsString_printAtom (h : g.Succeeds) (x : Sexp) :
    KeepsString z (stringBlocks z o.str) (Limited.printAtom g x o) := by
  cases x with
  | value aty val valAllocated valUsed =>
    exact Settles.bind (keepsString_openQuote h aty) fun o₁ _ =>
      Settles.bind (keepsString_printVal h aty val valUsed) fun o₂ _ => keepsString_closeQuote h aty
  | blob bindata binlength =>
    refine Settles.bind (keepsString_append h _) fun o₁ _ => ?_
    split_ifs
    · exact keepsString_fault
    · exact Settles.bind (keepsString_printBytes h _ o₁) fun o₂ _ => keepsString_saddch h space
  | list elems => exact keepsString_pure

lemma keepsString_separate (h : g.Succeeds) (xs : List Sexp) :
    KeepsString z (stringBlocks z o.str) (Limited.separate g xs o) := by
  rw [Limited.separate]
  split_ifs
  · exact keepsString_pure
  · exact keepsString_saddch h space

lemma keepsString_closeParens (h : g.Succeeds) (depth : Nat) (o : Output) :
    KeepsString z (stringBlocks z o.str) (Limited.closeParens g depth o) := by
  induction depth generalizing o with
  | zero => exact keepsString_pure
  | succ depth ih => exact Settles.bind (keepsString_saddch h rparen) fun o₁ _ => ih o₁

end Strings

/-- The levels that a stack of a printer has allocated, those in reserve included. -/
def levelCells (z : Sizes) (s : Faststack) : Multiset Nat :=
  Multiset.replicate (s.levels.length + s.spare) z.stackLvl

lemma pop_cells {z : Sizes} {s s' : Faststack} {data : List Sexp} (hpop : s.pop = some (data, s')) :
    levelCells z s' = levelCells z s := by
  rw [Faststack.pop] at hpop
  split at hpop
  · next data' rest n hlevels hheight =>
    cases hpop
    have hcount : rest.length + (s.spare + 1) = rest.length + 1 + s.spare := by omega
    simp only [levelCells, hlevels, List.length_cons, hcount]
  · cases hpop

/-- The blocks that a printer holds in its loop. -/
def printBlocks (z : Sizes) (l : PrintLocals) : Multiset Nat :=
  stringBlocks z l.out.str + levelCells z l.stack

/-- The blocks that the loop is left with. -/
def printLeft (z : Sizes) : Except Fault PrintLocals → Option (Multiset Nat)
  | .ok l => some (printBlocks z l)
  | .error _ => none

/-- A piece of a round of the printer. -/
abbrev KeepsPrint (z : Sizes) (m : Multiset Nat)
    (x : Metered (Except Fault PrintLocals) PrintLocals) : Prop :=
  Settles m x (printBlocks z) (printLeft z)

section Loop

variable {z : Sizes} {g : StringSetup} {o : Output} {l : PrintLocals}

lemma settles_attempt {x : Metered Fault Output} (hx : KeepsString z (stringBlocks z o.str) x)
    (r : Multiset Nat) :
    Settles (stringBlocks z o.str + r) (Limited.attempt x) (fun o => stringBlocks z o.str + r)
      (printLeft z) :=
  Settles.mapError (Settles.frame hx r) (fun f => (Except.error f : Except Fault PrintLocals))
    fun _ => rfl

lemma keepsPrint_push (h : g.Succeeds) (data : List Sexp) :
    KeepsPrint z (printBlocks z l) (Limited.printPush z g data l) := by
  rw [KeepsPrint, settles_ok value_printPush, Limited.printPush, printPush]
  by_cases hspare : 0 < l.stack.spare
  · have hcells : l.stack.levels.length + 1 + (l.stack.spare - 1) =
        l.stack.levels.length + l.stack.spare := by omega
    simp only [if_pos hspare]
    apply turns_of_eq
    simp only [printBlocks, levelCells, List.length_cons, hcells]
  · have hzero : l.stack.spare = 0 := Nat.eq_zero_of_not_pos hspare
    simp only [if_neg hspare, h _, if_true]
    apply turns_alloc
    simp only [printBlocks, levelCells, List.length_cons, hzero, Nat.add_zero,
      Multiset.replicate_succ, ← Multiset.singleton_add]
    abel

lemma keepsPrint_printParen (h : g.Succeeds) :
    KeepsPrint z (printBlocks z l) (Limited.printParen g l) := by
  rw [Limited.printParen]
  split_ifs
  · exact Settles.bind (settles_attempt (keepsString_saddch h rparen) _) fun _ _ => turns_nil
  · exact turns_nil

lemma keepsPrint_printNext (h : g.Succeeds) :
    KeepsPrint z (printBlocks z l) (Limited.printNext g l) := by
  rw [Limited.printNext]
  rcases hlevels : l.stack.levels with _ | ⟨_ | ⟨x, xs⟩, rest⟩
  · intro m' hm'
    obtain rfl := Option.some.inj hm'
    exact turns_nil
  · intro m' hm'
    cases hm'
  · refine Settles.bind (settles_attempt (keepsString_separate h xs) _) fun o₁ _ => ?_
    apply turns_of_eq
    simp only [printBlocks, levelCells, hlevels, List.length_cons]

lemma keepsPrint_printClose (h : g.Succeeds) :
    KeepsPrint z (printBlocks z l) (Limited.printClose g l) := by
  rw [Limited.printClose]
  rcases hpop : l.stack.pop with _ | ⟨data, stack⟩
  · intro m' hm'
    cases hm'
  · have hpopped : printBlocks z l = printBlocks z { l with stack := stack } := by
      rw [printBlocks, printBlocks, pop_cells hpop]
    rw [hpopped]
    exact Settles.bind (keepsPrint_printParen h) fun l₁ _ => keepsPrint_printNext h

/-- A round of the printer. -/
lemma keepsPrint_printHead (h : g.Succeeds) :
    KeepsPrint z (printBlocks z l) (Limited.printHead z g l) := by
  rw [Limited.printHead]
  rcases hlevels : l.stack.levels with _ | ⟨_ | ⟨x, xs⟩, rest⟩
  · intro m' hm'
    obtain rfl := Option.some.inj hm'
    exact turns_nil
  · exact keepsPrint_printClose h
  · cases x with
    | list elems =>
      exact Settles.bind (settles_attempt (keepsString_saddch h lparen) _) fun o₁ _ =>
        keepsPrint_push h elems
    | value aty val valAllocated valUsed =>
      exact Settles.bind (settles_attempt (keepsString_printAtom h _) _) fun o₁ _ =>
        keepsPrint_printNext h
    | blob bindata binlength =>
      exact Settles.bind (settles_attempt (keepsString_printAtom h _) _) fun o₁ _ =>
        keepsPrint_printNext h

end Loop

section Copies

variable {z : Sizes} {g : Setup} {h : Heap}

lemma blocks_singleton (x : Sexp) : blocks z [x] = content z x + {z.sexpT} := by
  rw [blocks_cons, blocks_nil, add_zero]

/-- What the copy of an atom does with the node that it was given. -/
lemma settles_copyText {aty : AtomT} {val : List Byte} {valAllocated valUsed : Nat}
    (hsized : val ≠ [] → 0 < valAllocated) :
    Settles {z.sexpT} (Limited.copyText z g aty val valAllocated valUsed h)
      (fun p => blocks z p.1.toList) fun _ => none := by
  have hfreed : ({z.sexpT} : Multiset Nat) = {z.sexpT} + 0 := (add_zero _).symm
  by_cases hnil : val = []
  · by_cases hbad : 0 < valUsed ∨ 0 < valAllocated
    · have hrun : (Limited.copyText z g aty val valAllocated valUsed h).value =
          .ok (none, { h with errno := .badContent }) := by
        simp only [Limited.copyText, copyText, if_pos hnil, if_pos hbad]
      rw [settles_ok hrun, Limited.copyText, if_pos hnil, if_pos hbad]
      exact turns_free hfreed
    · have hrun : (Limited.copyText z g aty val valAllocated valUsed h).value =
          .ok (some (.value aty [] valAllocated valUsed), h) := by
        simp only [Limited.copyText, copyText, if_pos hnil, if_neg hbad]
      rw [settles_ok hrun, Limited.copyText, if_pos hnil, if_neg hbad]
      apply turns_of_eq
      rw [Option.toList_some, blocks_singleton, content_value, buffer, if_pos rfl, zero_add]
  · cases halloc : g.alloc h.allocs with
    | false =>
      have hrun : (Limited.copyText z g aty val valAllocated valUsed h).value =
          .ok (none, h.fail) := by
        simp [Limited.copyText, copyText, hnil, halloc]
      rw [settles_ok hrun, Limited.copyText, if_neg hnil, halloc]
      exact turns_free hfreed
    | true =>
      by_cases hused : valUsed ≤ valAllocated ∧ valUsed ≤ val.length
      · have hrun : (Limited.copyText z g aty val valAllocated valUsed h).value =
            .ok (some (.value aty (val.take valUsed ++ List.replicate (valAllocated - valUsed) nul)
              valAllocated valUsed), h.next) := by
          simp [Limited.copyText, copyText, hnil, halloc, hused]
        have hcells : val.take valUsed ++ List.replicate (valAllocated - valUsed) nul ≠ [] := by
          apply List.ne_nil_of_length_pos
          have hpos := hsized hnil
          rw [List.length_append, List.length_take, List.length_replicate]
          omega
        rw [settles_ok hrun, Limited.copyText, if_neg hnil, halloc]
        apply turns_alloc
        rw [Option.toList_some, blocks_singleton, content_value, buffer, if_neg hcells]
      · have hrun : (Limited.copyText z g aty val valAllocated valUsed h).value =
            .error .atomBuffer := by
          simp [Limited.copyText, copyText, hnil, halloc, hused]
        rw [settles_error hrun]
        intro m' hm'
        cases hm'

lemma settles_copyBlob {bindata : Option (List Byte)} {binlength : Nat} :
    Settles {z.sexpT} (Limited.copyBlob z g bindata binlength h)
      (fun p => blocks z p.1.toList) fun _ => none := by
  have hfreed : ({z.sexpT} : Multiset Nat) = {z.sexpT} + 0 := (add_zero _).symm
  cases bindata with
  | none => exact turns_free hfreed
  | some data =>
    cases halloc : g.alloc h.allocs with
    | false =>
      have hrun : (Limited.copyBlob z g (some data) binlength h).value = .ok (none, h.fail) := by
        simp [Limited.copyBlob, copyBlob, halloc]
      rw [settles_ok hrun, Limited.copyBlob, halloc]
      exact turns_free hfreed
    | true =>
      by_cases hlength : binlength ≤ data.length
      · have hrun : (Limited.copyBlob z g (some data) binlength h).value =
            .ok (some (.blob (some (data.take binlength)) binlength), h.next) := by
          simp [Limited.copyBlob, copyBlob, halloc, hlength]
        rw [settles_ok hrun, Limited.copyBlob, halloc]
        apply turns_alloc
        rw [Option.toList_some, blocks_singleton, content_blob]
        rfl
      · have hrun : (Limited.copyBlob z g (some data) binlength h).value = .error .blob := by
          simp [Limited.copyBlob, copyBlob, halloc, hlength]
        rw [settles_error hrun]
        intro m' hm'
        cases hm'

/-- The node that every copy starts with. -/
lemma settles_node {α : Type} {n : Nat} {f : Unit → Metered Fault α} {A : α → Multiset Nat}
    (hf : Settles {n} (f ()) A fun _ => none) :
    Settles 0 (charge [.alloc n] >>= f) A fun _ => none := by
  apply Settles.bind (A := fun _ => ({n} : Multiset Nat))
  · exact turns_alloc (add_zero _).symm
  · intro _ _
    exact hf

mutual
/-- The copy of an element consists of what was asked for and not given back, whatever fails. -/
lemma settles_copyElement (g : Setup) (x : Sexp) (hx : Sized x) (h : Heap) :
    Settles 0 (Limited.copyElement z g x h) (fun p => blocks z p.1.toList) fun _ => none := by
  cases x with
  | value aty val valAllocated valUsed =>
    rw [Sized] at hx
    rw [Limited.copyElement]
    split_ifs
    · exact turns_nil
    · exact settles_node (settles_copyText hx)
  | blob bindata binlength =>
    rw [Limited.copyElement]
    split_ifs
    · exact turns_nil
    · exact settles_node settles_copyBlob
  | list elems =>
    rw [Sized] at hx
    rw [Limited.copyElement]
    split_ifs
    · exact turns_nil
    · apply settles_node
      have hchain := Settles.frame (settles_copySexp g elems hx h.next) {z.sexpT}
      rw [zero_add] at hchain
      apply Settles.bind hchain
      intro p _
      apply turns_of_eq
      change blocks z p.1 + {z.sexpT} = blocks z [.list p.1]
      rw [blocks_singleton, content_list]

lemma settles_copySexp (g : Setup) (xs : List Sexp) (hxs : SizedAll xs) (h : Heap) :
    Settles 0 (Limited.copySexp z g xs h) (fun p => blocks z p.1) fun _ => none := by
  cases xs with
  | nil =>
    rw [Limited.copySexp]
    exact turns_of_eq (blocks_nil.symm)
  | cons x xs =>
    rw [SizedAll] at hxs
    rw [Limited.copySexp]
    apply Settles.bind (settles_copyElement g x hxs.1 h)
    rintro ⟨_ | y, h'⟩ _
    · exact turns_of_eq rfl
    · have hrest := Settles.frame (settles_copySexp g xs hxs.2 h') (blocks z [y])
      rw [zero_add] at hrest
      apply Settles.bind hrest
      intro p _
      apply turns_of_eq
      change blocks z p.1 + blocks z [y] = blocks z (y :: p.1)
      rw [blocks_singleton, blocks_cons]
      abel
end

end Copies

section Calls

variable {z : Sizes} {x : Sexp} {xs : List Sexp} {errno : ErrCode}

lemma turns_destroyStack (s : Faststack) :
    Turns (Limited.destroyStack z s) (levelCells z s + {z.faststack}) 0 := by
  have hlevels := (turns_free_replicate (s.levels.length + s.spare) z.stackLvl).frame {z.faststack}
  rw [zero_add] at hlevels
  exact hlevels.append (turns_free (add_zero _).symm)

/-- A text atom at the root has a buffer. -/
def RootBuffer : Sexp → Prop
  | .value _ val valAllocated _ => val ≠ [] ∧ 0 < valAllocated
  | _ => True

/-- The block behind a copy of the element that `sexp_t_deallocate` does not free. -/
def copiedBytes : Sexp → Multiset Nat
  | .value _ _ _ _ => 0
  | .blob bindata binlength => binary bindata binlength
  | .list _ => 0

lemma sized_unlinked (hx : RootBuffer x) : SizedAll [x.unlinked] := by
  cases x with
  | value aty val valAllocated valUsed => exact ⟨fun _ => hx.2, trivial⟩
  | blob bindata binlength => exact ⟨trivial, trivial⟩
  | list elems => exact ⟨trivial, trivial⟩

lemma rootBuffer_of_disposable (hx : Disposable x) : RootBuffer x ∧ copiedBytes x = 0 := by
  cases x with
  | value aty val valAllocated valUsed => exact ⟨hx, rfl⟩
  | blob bindata binlength => exact hx.elim
  | list elems => exact ⟨trivial, rfl⟩

/-- The copy of the first element, and `sexp_t_deallocate` of it. There is no copy of a binary atom
without bytes. -/
lemma copy_root {g : Setup} (h : g.Succeeds) (hx : RootBuffer x) (heap : Heap) :
    (∃ f, copySexp g [x.unlinked] heap = .error f) ∨
      (∃ n heap', x = .blob none n ∧ copySexp g [x.unlinked] heap = .ok ([], heap')) ∨
      ∃ y heap', (∀ n, x ≠ .blob none n) ∧ copySexp g [x.unlinked] heap = .ok ([y], heap') ∧
        Turns (Limited.sexpTDeallocate z y) (blocks z [y]) (copiedBytes x) := by
  cases x with
  | value aty val valAllocated valUsed =>
    obtain ⟨hval, hsize⟩ := hx
    by_cases hused : valUsed ≤ valAllocated ∧ valUsed ≤ val.length
    · right
      right
      refine ⟨.value aty (val.take valUsed ++ List.replicate (valAllocated - valUsed) nul)
        valAllocated valUsed, heap.next.next, by simp, ?_, ?_⟩
      · simp [Sexp.unlinked, copySexp, copyElement, copyText, hval, h _, hused, Except.map]
      · rw [blocks_singleton, content_value, buffer, Limited.sexpTDeallocate]
        split_ifs
        · exact turns_free (zero_add _)
        · have hfree : Turns [.free valAllocated] ({valAllocated} + {z.sexpT}) {z.sexpT} :=
            turns_free rfl
          exact hfree.append (turns_free (add_zero _).symm)
    · left
      exact ⟨.atomBuffer, by
        simp [Sexp.unlinked, copySexp, copyElement, copyText, hval, h _, hused]⟩
  | blob bindata binlength =>
    cases bindata with
    | none =>
      right
      left
      exact ⟨binlength, _, rfl, by
        simp [Sexp.unlinked, copySexp, copyElement, copyBlob, h _]
        rfl⟩
    | some data =>
      by_cases hlength : binlength ≤ data.length
      · right
        right
        refine ⟨.blob (some (data.take binlength)) binlength, heap.next.next, by simp, ?_, ?_⟩
        · simp [Sexp.unlinked, copySexp, copyElement, copyBlob, h _, hlength, Except.map]
        · rw [blocks_singleton, content_blob]
          exact turns_free (add_comm _ _)
      · left
        exact ⟨.blob, by simp [Sexp.unlinked, copySexp, copyElement, copyBlob, h _, hlength]⟩
  | list elems =>
    right
    right
    refine ⟨.list [], heap.next, by simp, ?_, ?_⟩
    · simp [Sexp.unlinked, copySexp, copyElement, h _, Except.map]
    · rw [blocks_singleton, content_list, blocks_nil, zero_add]
      exact turns_free (add_zero _).symm

lemma turns_noCopy {g : Setup} {heap heap' : Heap} (hx : RootBuffer x)
    (hcopy : copySexp g [x.unlinked] heap = .ok ([], heap')) :
    Turns (Limited.copySexp z g [x.unlinked] heap).ops 0 0 := by
  have hvalue := (value_copySexp (z := z) g _ _).trans hcopy
  have hsettled := Settles.turns (settles_copySexp g _ (sized_unlinked hx) _) hvalue
  rwa [blocks_nil] at hsettled

/-- What `print_sexp_cstr` does behind its loop. -/
lemma turns_printEnd {g : StringSetup} (h : g.Succeeds) {fakehead : Sexp} {l : PrintLocals}
    {o : Output} {m : Multiset Nat} (hclose : closeParens g l.depth l.out = .ok o)
    (hfake : Turns (Limited.sexpTDeallocate z fakehead) (blocks z [fakehead]) m) :
    Turns ((Limited.closeParens g l.depth l.out).ops ++ Limited.destroyStack z l.stack ++
        Limited.sexpTDeallocate z fakehead)
      (printBlocks z l + ({z.faststack} + blocks z [fakehead])) (stringBlocks z o.str + m) := by
  have hparens : Turns (Limited.closeParens g l.depth l.out).ops (stringBlocks z l.out.str)
      (stringBlocks z o.str) :=
    Settles.turns (keepsString_closeParens h _ _) ((value_closeParens _ _).trans hclose)
  have hstack :=
    (turns_destroyStack (z := z) l.stack).frame (stringBlocks z o.str + blocks z [fakehead])
  have hhead := hfake.frame (stringBlocks z o.str)
  rw [zero_add] at hstack
  rw [add_comm m] at hhead
  have hfirst := hparens.frame (levelCells z l.stack + {z.faststack} + blocks z [fakehead])
  rw [printBlocks]
  rw [show stringBlocks z l.out.str + levelCells z l.stack + ({z.faststack} + blocks z [fakehead]) =
      stringBlocks z l.out.str + (levelCells z l.stack + {z.faststack} + blocks z [fakehead]) by abel]
  rw [show stringBlocks z o.str + (levelCells z l.stack + {z.faststack} + blocks z [fakehead]) =
      levelCells z l.stack + {z.faststack} + (stringBlocks z o.str + blocks z [fakehead]) by abel]
    at hfirst
  rw [add_comm (stringBlocks z o.str)] at hstack hfirst
  exact (hfirst.append hstack).append hhead

/-- The loop of `print_sexp_cstr`, with what is given back behind it. -/
lemma turns_printLoop {g : StringSetup} (h : g.Succeeds) {n : Nat} {fakehead : Sexp} {l : PrintLocals}
    {p : Printed} {m : Multiset Nat} (hrun : printFinish g (Loop.run (printHead g) n
      (printPush g.toSetup [relink fakehead x] l)) = .ret p)
    (hfake : Turns (Limited.sexpTDeallocate z fakehead) (blocks z [fakehead]) m) :
    Turns (Limited.printLoopOps z g n fakehead x l)
      (printBlocks z l + ({z.faststack} + blocks z [fakehead])) (stringBlocks z p.str + m) := by
  have hpush : Turns (Limited.printPush z g [relink fakehead x] l).ops (printBlocks z l)
      (printBlocks z (printPush g.toSetup [relink fakehead x] l)) :=
    Settles.turns (keepsPrint_push h _) value_printPush
  have hvalue := loop_value_same (fun l => value_printHead (z := z) (g := g) (l := l)) n
    (printPush g.toSetup [relink fakehead x] l)
  rcases hloop : Loop.run (printHead g) n (printPush g.toSetup [relink fakehead x] l) with
    _ | ⟨_ | l'⟩
  · rw [hloop] at hrun
    cases hrun
  · rw [hloop] at hrun
    cases hrun
  · rw [hloop] at hrun hvalue
    have hround : ∀ l, True → KeepsPrint z (printBlocks z l) (Limited.printHead z g l) :=
      fun l _ => keepsPrint_printHead h
    have hrounds := turns_loop hround (fun _ _ _ _ => trivial) trivial hvalue rfl
    rw [printFinish] at hrun
    cases hclose : closeParens g l'.depth l'.out with
    | error f =>
      rw [hclose] at hrun
      cases hrun
    | ok o =>
      rw [hclose] at hrun
      cases hrun
      rw [Limited.printLoopOps]
      simp only [hvalue]
      exact ((hpush.append hrounds).frame _).append (turns_printEnd h hclose hfake)

lemma turns_snew {g : StringSetup} (h : g.Succeeds) (ss : Nat) (heap : Heap) :
    Turns (Limited.snewOps z g.toSetup ss heap) 0 (stringBlocks z (snew g ss heap).str) := by
  rw [Limited.snewOps, snew]
  simp only [h _, Bool.not_true, Bool.false_eq_true, if_false]
  have hstruct : Turns [.alloc z.cstring] 0 {z.cstring} := turns_alloc (add_zero _).symm
  exact hstruct.append (turns_alloc rfl)

/-- `print_sexp_cstr` once it has a string. -/
lemma turns_printBody {g : StringSetup} (h : g.Succeeds) {n : Nat} {out : Output} {y : Sexp}
    {heap : Heap} {p : Printed} {m : Multiset Nat}
    (hcopy : copySexp g.toSetup [x.unlinked] out.toHeap = .ok ([y], heap)) (hx : RootBuffer x)
    (hrun : printFinish g (Loop.run (printHead g) n
      (printPush g.toSetup [relink y x] ⟨{ heap.next with str := out.str }, makeStack, 0⟩)) = .ret p)
    (hfake : Turns (Limited.sexpTDeallocate z y) (blocks z [y]) m) :
    Turns ((Limited.copySexp z g.toSetup [x.unlinked] out.toHeap).ops ++ .alloc z.faststack ::
        Limited.printLoopOps z g n y x ⟨{ heap.next with str := out.str }, makeStack, 0⟩)
      (stringBlocks z out.str) (stringBlocks z p.str + m) := by
  have hfakehead : Turns (Limited.copySexp z g.toSetup [x.unlinked] out.toHeap).ops 0 (blocks z [y]) :=
    Settles.turns (settles_copySexp g.toSetup _ (sized_unlinked hx) _)
      ((value_copySexp _ _ _).trans hcopy)
  have hcopied := hfakehead.frame (stringBlocks z out.str)
  rw [zero_add] at hcopied
  have hstack : Turns [.alloc z.faststack] (blocks z [y] + stringBlocks z out.str)
      (stringBlocks z out.str + ({z.faststack} + blocks z [y])) := by
    apply turns_alloc
    abel
  have hempty : printBlocks z ⟨{ heap.next with str := out.str }, makeStack, 0⟩ =
      stringBlocks z out.str := add_zero _
  have hloop := turns_printLoop h hrun hfake
  rw [hempty] at hloop
  exact hcopied.append (hstack.append hloop)

/-- What `print_sexp_cstr` leaves besides the string: the bytes of the copy, or a new string when
there is nothing to copy. -/
def unprinted (z : Sizes) (g : StringSetup) (ss : Nat) (s : Option CString) (x : Sexp)
    (errno : ErrCode) : Multiset Nat :=
  match x with
  | .value _ _ _ _ => 0
  | .blob none _ => if s = none then stringBlocks z (snew g ss ⟨0, errno⟩).str else 0
  | .blob (some _) binlength => {binlength}
  | .list _ => 0

lemma unprinted_copied {g : StringSetup} {ss : Nat} {s : Option CString}
    (hx : ∀ n, x ≠ .blob none n) : unprinted z g ss s x errno = copiedBytes x := by
  cases x with
  | value aty val valAllocated valUsed => rfl
  | blob bindata binlength =>
    cases bindata with
    | none => exact absurd rfl (hx binlength)
    | some data => rfl
  | list elems => rfl

lemma turns_printSexpCstr {g : StringSetup} (h : g.Succeeds) {n ss : Nat} {s : Option CString}
    {p : Printed} (hx : RootBuffer x) (hrun : printSexpCstr g n s (x :: xs) ss errno = .ret p) :
    Turns (Limited.printSexpCstr z g n s (x :: xs) ss errno) (stringBlocks z s)
      (stringBlocks z p.str + unprinted z g ss s x errno) := by
  cases s with
  | none =>
    rcases copy_root (z := z) h hx (snew g ss ⟨0, errno⟩).toHeap with
      ⟨f, hcopy⟩ | ⟨n, heap, rfl, hcopy⟩ | ⟨y, heap, hroot, hcopy, hfake⟩
    · simp [printSexpCstr, hcopy] at hrun
    · have hvalue := (value_copySexp (z := z) g.toSetup _ _).trans hcopy
      simp only [printSexpCstr, hcopy] at hrun
      cases hrun
      simp only [Limited.printSexpCstr, hvalue, List.append_nil]
      have hmade := (turns_noCopy (z := z) hx hcopy).frame (stringBlocks z (snew g ss ⟨0, errno⟩).str)
      rw [zero_add] at hmade
      have hall := (turns_snew h ss ⟨0, errno⟩).append hmade
      rw [unprinted, if_pos rfl]
      rwa [← zero_add (stringBlocks z (snew g ss ⟨0, errno⟩).str)] at hall
    · have hvalue := (value_copySexp (z := z) g.toSetup _ _).trans hcopy
      simp only [printSexpCstr, hcopy, h _, Bool.not_true, Bool.false_eq_true, if_false] at hrun
      simp only [Limited.printSexpCstr, hvalue, h _, Bool.not_true, Bool.false_eq_true, if_false,
        List.append_assoc]
      rw [unprinted_copied hroot]
      exact (turns_snew h ss _).append (turns_printBody h hcopy hx hrun hfake)
  | some s =>
    rcases copy_root (z := z) h hx ⟨0, errno⟩ with
      ⟨f, hcopy⟩ | ⟨n, heap, rfl, hcopy⟩ | ⟨y, heap, hroot, hcopy, hfake⟩
    · simp [printSexpCstr, hcopy] at hrun
    · have hvalue := (value_copySexp (z := z) g.toSetup _ _).trans hcopy
      simp only [printSexpCstr, hcopy] at hrun
      cases hrun
      simp only [Limited.printSexpCstr, hvalue, List.append_nil, List.nil_append]
      have hkept := (turns_noCopy (z := z) hx hcopy).frame (stringBlocks z (some s))
      rw [zero_add] at hkept
      rwa [unprinted, if_neg (Option.some_ne_none s), add_zero]
    · have hvalue := (value_copySexp (z := z) g.toSetup _ _).trans hcopy
      simp only [printSexpCstr, hcopy, h _, Bool.not_true, Bool.false_eq_true, if_false] at hrun
      simp only [Limited.printSexpCstr, hvalue, h _, Bool.not_true, Bool.false_eq_true, if_false,
        List.nil_append]
      rw [unprinted_copied hroot]
      exact @turns_printBody z x g h n { allocs := 0, errno := errno, str := some s } y heap p _ hcopy
        hx hrun hfake

end Calls

section BufferPrinter

variable {z : Sizes} {g : Setup} {l l' : FillLocals}

/-- Without its meter, and without the stack it began with, a round is a round of `print_sexp`. -/
lemma value_fillHead : (Limited.fillHead z g l).value.mapError Prod.fst = fillHead g l := by
  rw [Limited.fillHead]
  split
  · next elems xs rest hlevels =>
    have hhead : fillHead g l = (l.openList g elems).mapError .inl := by
      rw [fillHead, hlevels]
    rw [hhead, value_mapError, Limited.openList, value_bind, value_lift]
    unfold FillLocals.openList
    cases FillLocals.withWindow { l with depth := l.depth + 1 } (l.toWindow.addChar lparen) <;> rfl
  · rw [value_mapError, value_lift]
    cases fillHead g l <;> rfl

lemma withWindow_stack {x : FillExec Window} (h : l.withWindow x = .ok l') : l'.stack = l.stack := by
  cases x with
  | error e => cases h
  | ok w =>
    cases h
    rfl

lemma next_cells (h : l.next = .ok l') : levelCells z l'.stack = levelCells z l.stack := by
  rw [FillLocals.next] at h
  rcases hlevels : l.stack.levels with _ | ⟨_ | ⟨x, xs⟩, rest⟩
  · rw [hlevels] at h
    cases h
    rfl
  · rw [hlevels] at h
    cases h
  · rw [hlevels] at h
    rw [withWindow_stack h, levelCells, levelCells, hlevels]
    rfl

lemma addParen_stack (h : l.addParen = .ok l') : l'.stack = l.stack := by
  rw [FillLocals.addParen] at h
  split_ifs at h
  · exact withWindow_stack (l := { l with depth := l.depth - 1 }) h
  · cases h
    rfl

lemma close_cells (h : l.close = .ok l') : levelCells z l'.stack = levelCells z l.stack := by
  rw [FillLocals.close] at h
  rcases hpop : l.stack.pop with _ | ⟨data, stack⟩
  · rw [hpop] at h
    cases h
  · rw [hpop] at h
    obtain ⟨l₁, hparen, hnext⟩ := steps_of_bind h
    rw [next_cells hnext, addParen_stack hparen, pop_cells hpop]

/-- A round that opens no list leaves the stack with the levels it had. -/
lemma fillHead_cells (h : fillHead g l = .ok l')
    (hnot : ∀ elems xs rest, l.stack.levels ≠ (.list elems :: xs) :: rest) :
    levelCells z l'.stack = levelCells z l.stack := by
  have hlift {α : Type} {x : FillExec α} {a : α}
      (hx : x.mapError Sum.inl = (.ok a : Except (FillStop ⊕ FillLocals) α)) : x = .ok a := by
    cases x with
    | error e => cases hx
    | ok b =>
      cases hx
      rfl
  rw [fillHead] at h
  split at h
  · cases h
  · exact close_cells (hlift h)
  · next elems xs rest hlevels => exact absurd hlevels (hnot elems xs rest)
  · obtain ⟨l₁, hatom, hnext⟩ := steps_of_bind (hlift h)
    rw [next_cells hnext, withWindow_stack hatom]

lemma settles_fillPush (h : g.Succeeds) (data : List Sexp) (E : FillStop → Option (Multiset Nat)) :
    Settles (levelCells z l.stack) (Limited.fillPush z g data l) (fun l => levelCells z l.stack)
      E := by
  have hrun : (Limited.fillPush z g data l).value = .ok (l.push g data) := rfl
  rw [settles_ok hrun, Limited.fillPush, FillLocals.push]
  by_cases hspare : 0 < l.stack.spare
  · have hcells : l.stack.levels.length + 1 + (l.stack.spare - 1) =
        l.stack.levels.length + l.stack.spare := by omega
    simp only [if_pos hspare]
    apply turns_of_eq
    simp only [levelCells, List.length_cons, hcells]
  · have hzero : l.stack.spare = 0 := Nat.eq_zero_of_not_pos hspare
    simp only [if_neg hspare, h _, if_true]
    apply turns_alloc
    simp only [levelCells, List.length_cons, hzero, Nat.add_zero, Multiset.replicate_succ,
      ← Multiset.singleton_add]

/-- A round of `print_sexp`. The levels it pops before it stops are those it began with. -/
lemma settles_fillHead (h : g.Succeeds) :
    Settles (levelCells z l.stack) (Limited.fillHead z g l) (fun l => levelCells z l.stack)
      fun e => some (levelCells z e.2) := by
  rw [Limited.fillHead]
  split
  · next elems xs rest hlevels =>
    refine Settles.mapError (E := fun _ => some (levelCells z l.stack)) ?_
      (fun e => (Sum.inl e, l.stack)) fun _ => rfl
    rw [Limited.openList]
    apply Settles.bind (A := fun l => levelCells z l.stack)
    · apply settles_lift
      · intro l₁ hl₁
        rw [withWindow_stack hl₁]
      · intro e _ m' hm'
        exact Option.some.inj hm'
    · intro l₁ hl₁
      exact settles_fillPush h elems _
  · next hnot =>
    refine Settles.mapError (E := fun _ => some (levelCells z l.stack)) ?_ (fun e => (e, l.stack))
      fun _ => rfl
    apply settles_lift
    · intro l₁ hl₁
      exact (fillHead_cells hl₁ hnot).symm
    · intro e _ m' hm'
      exact Option.some.inj hm'

/-- The loop of `print_sexp`, with what is given back behind it. -/
lemma turns_fillLoop (h : g.Succeeds) {n : Nat} {fakehead x : Sexp} {stop : FillStop ⊕ FillLocals}
    {m : Multiset Nat} (hrun : Loop.run (fillHead g) n (l.push g [relink fakehead x]) = some stop)
    (hfake : Turns (Limited.sexpTDeallocate z fakehead) (blocks z [fakehead]) m) :
    Turns (Limited.fillLoopOps z g n fakehead x l)
      (levelCells z l.stack + ({z.faststack} + blocks z [fakehead])) m := by
  have hpush : Turns (Limited.fillPush z g [relink fakehead x] l).ops (levelCells z l.stack)
      (levelCells z (l.push g [relink fakehead x]).stack) :=
    Settles.turns (settles_fillPush h _ fun _ => none) rfl
  have hvalue := loop_value Prod.fst (fun l => value_fillHead (z := z) (g := g) (l := l)) n
    (l.push g [relink fakehead x])
  rw [hrun] at hvalue
  obtain ⟨⟨_, stack⟩, hloop, rfl⟩ := Option.map_eq_some_iff.mp hvalue
  have hround : ∀ l : FillLocals, True → Settles (levelCells z l.stack) (Limited.fillHead z g l)
      (fun l => levelCells z l.stack) fun e => some (levelCells z e.2) :=
    fun l _ => settles_fillHead h
  have hrounds := turns_loop hround (fun _ _ _ _ => trivial) trivial hloop rfl
  have hstack := (turns_destroyStack (z := z) stack).frame (blocks z [fakehead])
  rw [zero_add, add_assoc] at hstack
  rw [Limited.fillLoopOps]
  simp only [hloop]
  exact ((hpush.append hrounds).frame _).append (hstack.append hfake)

/-- `print_sexp` gives back all that it asks for, but for the bytes of the copy. -/
lemma turns_printSexp (h : g.Succeeds) {n size : Nat} {buf : List Byte} {x : Sexp} {xs : List Sexp}
    {errno : ErrCode} {p : Filled} (hx : RootBuffer x)
    (hrun : printSexp g n buf size (x :: xs) errno = .ret p) :
    Turns (Limited.printSexp z g n buf size (x :: xs) errno) 0
      (if size < 1 then 0 else copiedBytes x) := by
  rw [Limited.printSexp]
  by_cases hsize : size < 1
  · simp only [hsize, if_true]
    exact turns_nil
  · simp only [hsize, if_false]
    rcases copy_root (z := z) h hx ⟨0, errno⟩ with
      ⟨f, hcopy⟩ | ⟨n, heap, rfl, hcopy⟩ | ⟨y, heap, -, hcopy, hfake⟩
    · simp [printSexp, hsize, hcopy] at hrun
    · have hvalue := (value_copySexp (z := z) g _ _).trans hcopy
      simp only [hvalue, List.append_nil]
      exact turns_noCopy hx hcopy
    · have hvalue := (value_copySexp (z := z) g _ _).trans hcopy
      simp only [printSexp, if_neg hsize, hcopy, h _, Bool.not_true, Bool.false_eq_true, if_false]
        at hrun
      simp only [hvalue, h _, Bool.not_true, Bool.false_eq_true, if_false]
      have hfakehead : Turns (Limited.copySexp z g [x.unlinked] ⟨0, errno⟩).ops 0 (blocks z [y]) :=
        Settles.turns (settles_copySexp g _ (sized_unlinked hx) _) hvalue
      have hstack : Turns [.alloc z.faststack] (blocks z [y]) ({z.faststack} + blocks z [y]) :=
        turns_alloc rfl
      rcases hloop : Loop.run (fillHead g) n (FillLocals.push g [relink y x]
        { toWindow := ⟨buf, 0, size⟩, toHeap := heap.next, stack := makeStack, depth := 0 }) with
        _ | stop
      · rw [hloop] at hrun
        cases hrun
      · have hrest := turns_fillLoop h hloop hfake
        have hempty : levelCells z makeStack + ({z.faststack} + blocks z [y]) =
            {z.faststack} + blocks z [y] := zero_add _
        rw [hempty] at hrest
        exact hfakehead.append (hstack.append hrest)

end BufferPrinter

end Sfsexp.Proofs
