import Sfsexp.Spec.Nodes

/-!
# The printers and the copier read what an element holds

On the nodes behind an expression the printers and `copy_sexp` do what they do on the expression: they
read the fields that belong to the kind of the node and no others.
-/

namespace Sfsexp.Proofs

open Sfsexp Spec

mutual
/-- Every text atom has a block, and counts a byte of it. -/
def Backed : Node → Prop
  | .mk s list =>
    match s.ty with
    | .list => BackedAll list
    | .value => s.aty ≠ .binary → cellsAt s.val ≠ [] ∧ 0 < s.valUsed

def BackedAll : List Node → Prop
  | [] => True
  | s :: next => Backed s ∧ BackedAll next
end

section Fields

variable {s : NodeFields} {list list' : List Node}

lemma element_list (hs : s.ty = .list) : element (.mk s list) = .list (elements list) := by
  rw [element, hs]

lemma element_blob (hs : s.ty = .value) (ha : s.aty = .binary) :
    element (.mk s list) = .blob (s.bindata.map (·.cells)) s.binlength := by
  rw [element, hs]
  exact if_pos ha

lemma element_text (hs : s.ty = .value) (ha : s.aty ≠ .binary) :
    element (.mk s list) = .value s.aty (cellsAt s.val) s.valAllocated s.valUsed := by
  rw [element, hs]
  exact if_neg ha

lemma backed_list (hs : s.ty = .list) : Backed (.mk s list) ↔ BackedAll list := by
  rw [Backed, hs]

lemma backed_value (hs : s.ty = .value) :
    Backed (.mk s list) ↔ (s.aty ≠ .binary → cellsAt s.val ≠ [] ∧ 0 < s.valUsed) := by
  rw [Backed, hs]

lemma elements_eq_nil : elements list = [] ↔ list = [] := by
  cases list with
  | nil => simp [elements]
  | cons s next => simp [elements]

end Fields

section Copy

variable {g : Setup} {junk : Nat → NodeFields} {s new : NodeFields} {h : Heap}

/-- A value's copy, as an element. -/
lemma copyValue_element (hnew : new.ty = .value)
    (hb : s.aty ≠ .binary → cellsAt s.val ≠ [] ∧ 0 < s.valUsed) :
    (Nodes.copyValue g s new h).map (fun r => (r.1.map fun f => element (.mk f []), r.2)) =
      if s.aty = .binary then copyBlob g (s.bindata.map (·.cells)) s.binlength h
      else copyText g s.aty (cellsAt s.val) s.valAllocated s.valUsed h := by
  rw [Nodes.copyValue]
  by_cases ha : s.aty = .binary
  · rw [if_pos ha, if_pos ha, Nodes.copyBlob]
    cases hdata : s.bindata with
    | none => rfl
    | some b =>
      rw [Option.map_some, copyBlob]
      by_cases halloc : (!g.alloc h.allocs) = true
      · simp only [if_pos halloc]
        rfl
      by_cases hlen : s.binlength ≤ b.cells.length
      · simp only [if_neg halloc, if_pos hlen]
        simp [Except.map, element_blob, hnew, ha]
      · simp only [if_neg halloc, if_neg hlen]
        rfl
  · obtain ⟨hcells, -⟩ := hb ha
    rw [if_neg ha, if_neg ha, Nodes.copyText, copyText, if_neg hcells]
    cases hval : s.val with
    | none => simp [cellsAt, hval] at hcells
    | some b =>
      have hb : cellsAt (some b) = b.cells := rfl
      rw [hb]
      by_cases halloc : (!g.alloc h.allocs) = true
      · simp only [if_pos halloc]
        rfl
      by_cases hlen : s.valUsed ≤ s.valAllocated ∧ s.valUsed ≤ b.cells.length
      · simp only [if_neg halloc, if_pos hlen]
        simp [Except.map, element_text, hnew, ha, cellsAt]
      · simp only [if_neg halloc, if_neg hlen]
        rfl

/-- The copy of a value has what the value has. -/
lemma backed_copyValue {f : NodeFields} {h' : Heap} (hnew : new.ty = .value)
    (hb : s.aty ≠ .binary → cellsAt s.val ≠ [] ∧ 0 < s.valUsed)
    (hcopy : Nodes.copyValue g s new h = .ok (some f, h')) : f.ty = .value ∧ Backed (.mk f []) := by
  rw [Nodes.copyValue] at hcopy
  by_cases ha : s.aty = .binary
  · rw [if_pos ha, Nodes.copyBlob] at hcopy
    cases hdata : s.bindata with
    | none =>
      rw [hdata] at hcopy
      cases hcopy
    | some b =>
      rw [hdata] at hcopy
      dsimp only at hcopy
      split_ifs at hcopy
      · cases hcopy
      · cases hcopy
        exact ⟨hnew, (backed_value (by exact hnew)).mpr fun h => absurd ha h⟩
  · obtain ⟨hcells, hused⟩ := hb ha
    rw [if_neg ha, Nodes.copyText] at hcopy
    cases hval : s.val with
    | none => simp [cellsAt, hval] at hcells
    | some b =>
      rw [hval] at hcopy hcells
      dsimp only at hcopy
      split_ifs at hcopy
      · cases hcopy
      · cases hcopy
        refine ⟨hnew, (backed_value (by exact hnew)).mpr fun _ => ⟨?_, hused⟩⟩
        have hne : b.cells ≠ [] := hcells
        simp only [cellsAt, Option.map_some, Option.getD_some, ne_eq, List.append_eq_nil_iff,
          List.take_eq_nil_iff, hne, or_false, not_and]
        omega

mutual
lemma copyElement_element (n : Node) (hb : Backed n) (h : Heap) :
    (Nodes.copyElement g junk n h).map (fun r => (r.1.map element, r.2)) =
      copyElement g (element n) h := by
  cases n with
  | mk s list =>
    rw [Nodes.copyElement]
    cases hs : s.ty with
    | list =>
      have ih := copySexp_elements list ((backed_list hs).mp hb) h.next
      rw [element_list hs, copyElement]
      split_ifs
      · rfl
      rw [← ih]
      cases Nodes.copySexp g junk list h.next with
      | error f => rfl
      | ok r => simp [Except.map, element_list, Nodes.cleared]
    | value =>
      have hcopy := @copyValue_element g s (Nodes.cleared .value (junk h.allocs)) h.next rfl
        ((backed_value hs).mp hb)
      have hrun : copyElement g (element (.mk s list)) h =
          if (!g.alloc h.allocs) = true then .ok (none, h.fail)
          else if s.aty = .binary then copyBlob g (s.bindata.map (·.cells)) s.binlength h.next
          else copyText g s.aty (cellsAt s.val) s.valAllocated s.valUsed h.next := by
        by_cases ha : s.aty = .binary
        · rw [element_blob hs ha, copyElement, if_pos ha]
        · rw [element_text hs ha, copyElement, if_neg ha]
      rw [hrun]
      by_cases halloc : (!g.alloc h.allocs) = true
      · rw [if_pos halloc, if_pos halloc]
        rfl
      · rw [if_neg halloc, if_neg halloc, ← hcopy]
        dsimp only
        cases Nodes.copyValue g s (Nodes.cleared .value (junk h.allocs)) h.next with
        | error f => rfl
        | ok r => simp [Except.map, Function.comp_def]

/-- `copy_sexp` copies the element that a node stands for. -/
lemma copySexp_elements (ns : List Node) (hb : BackedAll ns) (h : Heap) :
    (Nodes.copySexp g junk ns h).map (fun r => (elements r.1, r.2)) =
      copySexp g (elements ns) h := by
  cases ns with
  | nil => rfl
  | cons n next =>
    have hfirst := copyElement_element n hb.1 h
    rw [elements, Nodes.copySexp, copySexp, ← hfirst]
    cases hcopy : Nodes.copyElement g junk n h with
    | error f => rfl
    | ok r =>
      obtain ⟨o, h'⟩ := r
      cases o with
      | none => rfl
      | some m =>
        have ih := copySexp_elements next hb.2 h'
        simp only [Except.map, Option.map_some]
        rw [← ih]
        cases Nodes.copySexp g junk next h' with
        | error f => rfl
        | ok r => rfl
end

end Copy

section Fakehead

variable {g : Setup} {junk : Nat → NodeFields} {h h' : Heap} {n m : Node} {ms : List Node}

lemma element_unlinked : element (Nodes.unlinked n) = (element n).unlinked := by
  cases n with
  | mk s list =>
    rw [Nodes.unlinked]
    cases hs : s.ty with
    | list =>
      rw [element_list hs, element_list hs]
      rfl
    | value =>
      by_cases ha : s.aty = .binary
      · rw [element_blob hs ha, element_blob hs ha]
        rfl
      · rw [element_text hs ha, element_text hs ha]
        rfl

lemma backed_unlinked (hb : Backed n) : Backed (Nodes.unlinked n) := by
  cases n with
  | mk s list =>
    rw [Nodes.unlinked]
    cases hs : s.ty with
    | list => exact (backed_list hs).mpr trivial
    | value => exact (backed_value hs).mpr ((backed_value hs).mp hb)

/-- The copy that a printer starts from, once it has the children of the original. -/
lemma relink_copy (hb : Backed n)
    (hcopy : Nodes.copySexp g junk [Nodes.unlinked n] h = .ok (m :: ms, h')) :
    Backed (Nodes.relink m n) ∧ element (Nodes.relink m n) = relink (element m) (element n) := by
  cases n with
  | mk s list =>
    rw [Nodes.unlinked, Nodes.copySexp, Nodes.copyElement] at hcopy
    split_ifs at hcopy
    · cases hcopy
    cases hs : s.ty with
    | list =>
      rw [hs] at hcopy
      cases hcopy
      refine ⟨(backed_list rfl).mpr ((backed_list hs).mp hb), ?_⟩
      rw [Nodes.relink, element_list rfl, element_list rfl, element_list hs]
      rfl
    | value =>
      rw [hs] at hcopy
      dsimp only at hcopy
      cases hval : Nodes.copyValue g s (Nodes.cleared .value (junk h.allocs)) h.next with
      | error f =>
        rw [hval] at hcopy
        cases hcopy
      | ok r =>
        obtain ⟨o, h₁⟩ := r
        cases o with
        | none =>
          rw [hval] at hcopy
          cases hcopy
        | some f =>
          rw [hval] at hcopy
          cases hcopy
          obtain ⟨hf, hbacked⟩ := backed_copyValue rfl ((backed_value hs).mp hb) hval
          refine ⟨(backed_value hf).mpr ((backed_value hf).mp hbacked), ?_⟩
          rw [Nodes.relink]
          by_cases ha : f.aty = .binary
          · rw [element_blob hf ha, element_blob hf ha]
            rfl
          · rw [element_text hf ha, element_text hf ha]
            rfl

end Fakehead

/-- The stack of a printer on elements. -/
def stackOf (s : Nodes.PrintStack) : Faststack := ⟨s.levels.map elements, s.spare, s.height⟩

/-- All that is left to print is backed. -/
def BackedStack (s : Nodes.PrintStack) : Prop := ∀ chain ∈ s.levels, BackedAll chain

section Stack

variable {s s' : Nodes.PrintStack} {data : List Node}

lemma stackOf_pop (h : s.pop = some (data, s')) :
    (stackOf s).pop = some (elements data, stackOf s') := by
  rw [Nodes.PrintStack.pop] at h
  split at h
  · rename_i top rest height hlevels hheight
    cases h
    simp [stackOf, Faststack.pop, hlevels, hheight]
  · cases h

lemma stackOf_pop_none (h : s.pop = none) : (stackOf s).pop = none := by
  obtain ⟨levels, spare, height⟩ := s
  cases levels with
  | nil => rfl
  | cons top rest =>
    cases height with
    | zero => rfl
    | succ n => cases h

lemma BackedStack.pop (hb : BackedStack s) (h : s.pop = some (data, s')) : BackedStack s' := by
  rw [Nodes.PrintStack.pop] at h
  split at h
  · rename_i top rest height hlevels hheight
    cases h
    intro chain hchain
    exact hb chain (hlevels ▸ List.mem_cons_of_mem _ hchain)
  · cases h

end Stack

section Strings

variable {g : StringSetup} {l : Nodes.PrintState} {s : NodeFields} {list : List Node} {o : Output}

/-- The locals of the printer on elements. -/
def printLocalsOf (l : Nodes.PrintState) : PrintLocals := ⟨l.out, stackOf l.stack, l.depth⟩

/-- Steps of the two printers that end alike. -/
abbrev SamePrint : Nodes.PrintExec Nodes.PrintState → PrintExec PrintLocals → Prop :=
  Loop.Lockstep (fun l l' => l' = printLocalsOf l ∧ BackedStack l.stack)
    fun r r' => r' = r.map printLocalsOf

lemma samePrint_attempt {x : Except Fault Output} {f : Output → Nodes.PrintExec Nodes.PrintState}
    {f' : Output → PrintExec PrintLocals} (h : ∀ out, SamePrint (f out) (f' out)) :
    SamePrint (Nodes.attempt x >>= f) (attempt x >>= f') := by
  cases x with
  | error e => rfl
  | ok out => exact h out

lemma samePrint_bind {x : Nodes.PrintExec Nodes.PrintState} {x' : PrintExec PrintLocals}
    {f : Nodes.PrintState → Nodes.PrintExec Nodes.PrintState}
    {f' : PrintLocals → PrintExec PrintLocals} (hx : SamePrint x x')
    (h : ∀ l, BackedStack l.stack → SamePrint (f l) (f' (printLocalsOf l))) :
    SamePrint (x >>= f) (x' >>= f') := by
  cases x with
  | error r =>
    cases x' with
    | error r' => exact hx
    | ok l' => exact hx.elim
  | ok l =>
    cases x' with
    | error r' => exact hx.elim
    | ok l' =>
      obtain ⟨rfl, hb⟩ := hx
      exact h l hb

lemma printAtom_element (hs : s.ty = .value) :
    Nodes.printAtom g s o = printAtom g (element (.mk s list)) o := by
  rw [Nodes.printAtom]
  by_cases ha : s.aty = .binary
  · have hopen : openQuote g s.aty o = .ok o := by
      rw [ha]
      rfl
    have hclose : ∀ o, closeQuote g s.aty o = .ok o := fun o => by
      rw [ha]
      rfl
    have hid : ∀ x : Except Fault Output, (x >>= fun o => .ok o) = x := fun x => by
      cases x <;> rfl
    have hcells : cellsAt s.bindata = (s.bindata.map (·.cells)).getD [] := rfl
    rw [element_blob hs ha, hopen, printAtom]
    simp only [hclose, Nodes.printValue, if_pos ha, Nodes.printBlob, hcells]
    exact hid _
  · rw [element_text hs ha, printAtom]
    simp only [Nodes.printValue, if_neg ha]

lemma samePrint_next (hb : BackedStack l.stack) :
    SamePrint (Nodes.printNext g l) (printNext g (printLocalsOf l)) := by
  have hlevels : (printLocalsOf l).stack.levels = l.stack.levels.map elements := rfl
  rw [Nodes.printNext, printNext, hlevels]
  cases hl : l.stack.levels with
  | nil => rfl
  | cons chain rest =>
    cases chain with
    | nil => rfl
    | cons n next =>
      have hsep : ∀ o, Nodes.separate g next o = separate g (elements next) o := fun o => by
        rw [Nodes.separate, separate]
        exact if_congr elements_eq_nil.symm rfl rfl
      simp only [List.map_cons, elements]
      rw [hsep]
      refine samePrint_attempt fun out => ⟨rfl, ?_⟩
      intro c hc
      rcases List.mem_cons.mp hc with rfl | hc
      · exact (hb (n :: c) (hl ▸ List.mem_cons_self)).2
      · exact hb c (hl ▸ List.mem_cons_of_mem _ hc)

lemma samePrint_paren (hb : BackedStack l.stack) :
    SamePrint (Nodes.printParen g l) (printParen g (printLocalsOf l)) := by
  rw [Nodes.printParen, printParen]
  by_cases hd : 0 < l.depth
  · rw [if_pos hd, if_pos (show 0 < (printLocalsOf l).depth from hd)]
    exact samePrint_attempt fun out => ⟨rfl, hb⟩
  · rw [if_neg hd, if_neg (show ¬ 0 < (printLocalsOf l).depth from hd)]
    exact ⟨rfl, hb⟩

lemma samePrint_close (hb : BackedStack l.stack) :
    SamePrint (Nodes.printClose g l) (printClose g (printLocalsOf l)) := by
  have hstack : (printLocalsOf l).stack = stackOf l.stack := rfl
  rw [Nodes.printClose, printClose, hstack]
  cases hpop : l.stack.pop with
  | none =>
    rw [stackOf_pop_none hpop]
    rfl
  | some r =>
    obtain ⟨data, stack⟩ := r
    rw [stackOf_pop hpop]
    refine samePrint_bind (samePrint_paren (l := { l with stack := stack }) (hb.pop hpop)) ?_
    exact fun l hb => samePrint_next hb

lemma samePrint_push {data : List Node} (hb : BackedStack l.stack) (hdata : BackedAll data) :
    printPush g.toSetup (elements data) (printLocalsOf l) =
        printLocalsOf (Nodes.printPush g.toSetup data l) ∧
      BackedStack (Nodes.printPush g.toSetup data l).stack := by
  have hspare : (printLocalsOf l).stack.spare = l.stack.spare := rfl
  have hout : (printLocalsOf l).out = l.out := rfl
  have hcons : ∀ spare height, BackedStack ⟨data :: l.stack.levels, spare, height⟩ := by
    intro spare height chain hchain
    rcases List.mem_cons.mp hchain with rfl | hchain
    · exact hdata
    · exact hb chain hchain
  rw [Nodes.printPush, printPush, hspare, hout]
  split_ifs
  · exact ⟨rfl, hcons _ _⟩
  · exact ⟨rfl, hcons _ _⟩
  · exact ⟨rfl, hb⟩

/-- A round of the printer on elements that prints an atom. -/
lemma printHead_ofValue {next : List Node} {rest : List (List Node)}
    (hl : l.stack.levels = (.mk s list :: next) :: rest) (hs : s.ty = .value) :
    printHead g (printLocalsOf l) =
      (attempt (Nodes.printAtom g s l.out) >>= fun out =>
        printNext g (printLocalsOf { l with out := out })) := by
  have hlevels : (printLocalsOf l).stack.levels = l.stack.levels.map elements := rfl
  rw [printHead, hlevels, hl, @printAtom_element g s list l.out hs]
  by_cases ha : s.aty = .binary
  · simp only [List.map_cons, elements, element_blob hs ha]
    rfl
  · simp only [List.map_cons, elements, element_text hs ha]
    rfl

lemma samePrint_head (hb : BackedStack l.stack) :
    SamePrint (Nodes.printHead g l) (printHead g (printLocalsOf l)) := by
  have hlevels : (printLocalsOf l).stack.levels = l.stack.levels.map elements := rfl
  rw [Nodes.printHead]
  cases hl : l.stack.levels with
  | nil =>
    rw [printHead, hlevels, hl]
    rfl
  | cons chain rest =>
    cases chain with
    | nil =>
      rw [printHead, hlevels, hl]
      exact samePrint_close hb
    | cons n next =>
      cases n with
      | mk s list =>
        have hchain := hb _ (hl ▸ List.mem_cons_self)
        dsimp only
        cases hs : s.ty with
        | list =>
          rw [printHead, hlevels, hl]
          simp only [List.map_cons, elements, element_list hs]
          refine samePrint_attempt fun out => ?_
          exact @samePrint_push g { l with out := out, depth := l.depth + 1 } list hb
            ((backed_list hs).mp hchain.1)
        | value =>
          rw [printHead_ofValue hl hs]
          exact samePrint_attempt fun out => samePrint_next (l := { l with out := out }) hb

lemma printFinish_same {r : Option (Except Fault Nodes.PrintState)}
    {r' : Option (Except Fault PrintLocals)}
    (h : Option.Rel (fun r r' => r' = Except.map printLocalsOf r) r r') :
    Nodes.printFinish g r = printFinish g r' := by
  cases h with
  | none => rfl
  | @some r r' h =>
    subst h
    cases r with
    | error f => rfl
    | ok l => rfl

/-- The rest of `print_sexp_cstr` once its string is there. -/
lemma printFrom_same {junk : Nat → NodeFields} {x : Node} (hb : Backed x) (n : Nat)
    (str : Option CString) (out : Output) :
    (match Nodes.copySexp g.toSetup junk [Nodes.unlinked x] out.toHeap with
      | .error f => PrintResult.fault f
      | .ok ([], _) => .ret ⟨-1, str, .memory⟩
      | .ok (fakehead :: _, h) =>
        if !g.alloc h.allocs then .ret ⟨-1, str, .memory⟩
        else Nodes.printFinish g (Loop.run (Nodes.printHead g) n
          (Nodes.printPush g.toSetup [Nodes.relink fakehead x]
            ⟨{ h.next with str := out.str }, ⟨[], 0, 0⟩, 0⟩))) =
      match copySexp g.toSetup [(element x).unlinked] out.toHeap with
      | .error f => .fault f
      | .ok ([], _) => .ret ⟨-1, str, .memory⟩
      | .ok (fakehead :: _, h) =>
        if !g.alloc h.allocs then .ret ⟨-1, str, .memory⟩
        else printFinish g (Loop.run (printHead g) n
          (printPush g.toSetup [relink fakehead (element x)]
            ⟨{ h.next with str := out.str }, makeStack, 0⟩)) := by
  have hcopy := @copySexp_elements g.toSetup junk [Nodes.unlinked x] ⟨backed_unlinked hb, trivial⟩
    out.toHeap
  rw [elements, elements, element_unlinked] at hcopy
  rw [← hcopy]
  cases hrun : Nodes.copySexp g.toSetup junk [Nodes.unlinked x] out.toHeap with
  | error f => rfl
  | ok r =>
    obtain ⟨ms, h⟩ := r
    cases ms with
    | nil => rfl
    | cons m ms =>
      obtain ⟨hbacked, helement⟩ := relink_copy hb hrun
      simp only [Except.map, elements]
      rw [← helement]
      split_ifs
      · rfl
      have hstart : BackedStack ⟨[], 0, 0⟩ := fun _ h => by cases h
      obtain ⟨hpush, hstack⟩ := @samePrint_push g ⟨{ h.next with str := out.str }, ⟨[], 0, 0⟩, 0⟩
        [Nodes.relink m x] hstart ⟨hbacked, trivial⟩
      have hstep : ∀ l l', l' = printLocalsOf l ∧ BackedStack l.stack →
          SamePrint (Nodes.printHead g l) (printHead g l') := by
        rintro l l' ⟨rfl, hb⟩
        exact samePrint_head hb
      exact printFinish_same (Loop.run_lockstep hstep ⟨hpush, hstack⟩ n)

/-- `print_sexp_cstr` prints the element that the node stands for. -/
theorem printSexpCstr_elements {junk : Nat → NodeFields} {sx : List Node} (hb : BackedAll sx)
    (n : Nat) (str : Option CString) (ss : Nat) (errno : ErrCode) :
    Nodes.printSexpCstr g junk n str sx ss errno =
      printSexpCstr g n str (elements sx) ss errno := by
  cases sx with
  | nil => rfl
  | cons x next =>
    cases str with
    | none => exact printFrom_same hb.1 n none (snew g ss ⟨0, errno⟩)
    | some str => exact printFrom_same hb.1 n (some str) ⟨⟨0, errno⟩, some str⟩

end Strings

section Filling

variable {g : Setup} {l : Nodes.FillState} {s : NodeFields} {list : List Node} {w : Window}

/-- The locals of `print_sexp` on elements. -/
def fillLocalsOf (l : Nodes.FillState) : FillLocals :=
  { toWindow := l.toWindow, toHeap := l.toHeap, stack := stackOf l.stack, depth := l.depth }

/-- Pieces of a round of `print_sexp` that end alike. -/
abbrev SameFill : FillExec Nodes.FillState → FillExec FillLocals → Prop :=
  Loop.Lockstep (fun l l' => l' = fillLocalsOf l ∧ BackedStack l.stack) fun e e' => e' = e

/-- The ways to leave the loop. -/
abbrev SameStop : FillStop ⊕ Nodes.FillState → FillStop ⊕ FillLocals → Prop :=
  fun r r' => r' = r.map id fillLocalsOf

lemma sameFill_bind {x : FillExec Nodes.FillState} {x' : FillExec FillLocals}
    {f : Nodes.FillState → FillExec Nodes.FillState} {f' : FillLocals → FillExec FillLocals}
    (hx : SameFill x x') (h : ∀ l, BackedStack l.stack → SameFill (f l) (f' (fillLocalsOf l))) :
    SameFill (x >>= f) (x' >>= f') := by
  cases x with
  | error e =>
    cases x' with
    | error e' => exact hx
    | ok l' => exact hx.elim
  | ok l =>
    cases x' with
    | error e' => exact hx.elim
    | ok l' =>
      obtain ⟨rfl, hb⟩ := hx
      exact h l hb

lemma sameFill_window (hb : BackedStack l.stack) (x : FillExec Window) :
    SameFill (l.withWindow x) ((fillLocalsOf l).withWindow x) := by
  cases x with
  | error e => rfl
  | ok w => exact ⟨rfl, hb⟩

/-- A round is a piece of a round in which no result is reached. -/
lemma SameFill.head {x : FillExec Nodes.FillState} {x' : FillExec FillLocals} (h : SameFill x x') :
    Loop.Lockstep (fun l l' => l' = fillLocalsOf l ∧ BackedStack l.stack) SameStop
      (x.mapError .inl) (x'.mapError .inl) := by
  cases x with
  | error e =>
    cases x' with
    | error e' => exact congrArg Sum.inl h
    | ok l' => exact h.elim
  | ok l =>
    cases x' with
    | error e' => exact h.elim
    | ok l' => exact h

lemma addAtom_element (hs : s.ty = .value) (hb : Backed (.mk s list)) :
    Nodes.addAtom s w = w.addAtom (element (.mk s list)) := by
  rw [Nodes.addAtom]
  by_cases ha : s.aty = .binary
  · have hopen : w.addOpenQuote s.aty = .ok w := by
      rw [ha]
      rfl
    have hclose : ∀ w : Window, w.addCloseQuote s.aty = .ok w := fun w => by
      rw [ha]
      rfl
    have hvalue : ∀ w, Nodes.addValue s w = w.addBlob (s.bindata.map (·.cells)) s.binlength :=
      fun w => if_neg fun h => h.1 ha
    rw [element_blob hs ha, hopen, Window.addAtom]
    simp only [hclose, ← hvalue]
    rfl
  · obtain ⟨-, hused⟩ := (backed_value hs).mp hb ha
    have hvalue : ∀ w, Nodes.addValue s w = w.addValue s.aty (cellsAt s.val) s.valUsed := fun w => by
      rw [Nodes.addValue, Window.addValue, if_pos ⟨ha, hused⟩, if_pos ⟨ha, hused⟩]
    rw [element_text hs ha, Window.addAtom]
    simp only [← hvalue]

lemma sameFill_next (hb : BackedStack l.stack) : SameFill l.next (fillLocalsOf l).next := by
  have hlevels : (fillLocalsOf l).stack.levels = l.stack.levels.map elements := rfl
  rw [Nodes.FillState.next, FillLocals.next, hlevels]
  cases hl : l.stack.levels with
  | nil => exact ⟨rfl, hb⟩
  | cons chain rest =>
    cases chain with
    | nil => rfl
    | cons n next =>
      have hsep : Nodes.FillState.separate next l.toWindow =
          (fillLocalsOf l).toWindow.separate (elements next) := by
        rw [Nodes.FillState.separate, Window.separate]
        exact if_congr elements_eq_nil.symm rfl rfl
      simp only [List.map_cons, elements]
      rw [hsep]
      refine sameFill_window (l := { l with stack := { l.stack with levels := next :: rest } }) ?_ _
      intro c hc
      rcases List.mem_cons.mp hc with rfl | hc
      · exact (hb (n :: c) (hl ▸ List.mem_cons_self)).2
      · exact hb c (hl ▸ List.mem_cons_of_mem _ hc)

lemma sameFill_paren (hb : BackedStack l.stack) :
    SameFill l.addParen (fillLocalsOf l).addParen := by
  rw [Nodes.FillState.addParen, FillLocals.addParen]
  by_cases hd : 0 < l.depth
  · rw [if_pos hd, if_pos (show 0 < (fillLocalsOf l).depth from hd)]
    exact sameFill_window (l := { l with depth := l.depth - 1 }) hb _
  · rw [if_neg hd, if_neg (show ¬ 0 < (fillLocalsOf l).depth from hd)]
    exact ⟨rfl, hb⟩

lemma sameFill_close (hb : BackedStack l.stack) : SameFill l.close (fillLocalsOf l).close := by
  have hstack : (fillLocalsOf l).stack = stackOf l.stack := rfl
  rw [Nodes.FillState.close, FillLocals.close, hstack]
  cases hpop : l.stack.pop with
  | none =>
    rw [stackOf_pop_none hpop]
    rfl
  | some r =>
    obtain ⟨data, stack⟩ := r
    rw [stackOf_pop hpop]
    refine sameFill_bind (sameFill_paren (l := { l with stack := stack }) (hb.pop hpop)) ?_
    exact fun l hb => sameFill_next hb

lemma sameFill_push {data : List Node} (hb : BackedStack l.stack) (hdata : BackedAll data) :
    (fillLocalsOf l).push g (elements data) = fillLocalsOf (l.push g data) ∧
      BackedStack (l.push g data).stack := by
  have hspare : (fillLocalsOf l).stack.spare = l.stack.spare := rfl
  have hallocs : (fillLocalsOf l).allocs = l.allocs := rfl
  have hcons : ∀ spare height, BackedStack ⟨data :: l.stack.levels, spare, height⟩ := by
    intro spare height chain hchain
    rcases List.mem_cons.mp hchain with rfl | hchain
    · exact hdata
    · exact hb chain hchain
  rw [Nodes.FillState.push, FillLocals.push, hspare, hallocs]
  split_ifs
  · exact ⟨rfl, hcons _ _⟩
  · exact ⟨rfl, hcons _ _⟩
  · exact ⟨rfl, hb⟩

lemma sameFill_open (hb : BackedStack l.stack) (hdata : BackedAll list) :
    SameFill (l.openList g list) ((fillLocalsOf l).openList g (elements list)) := by
  rw [Nodes.FillState.openList, FillLocals.openList]
  refine sameFill_bind (sameFill_window (l := { l with depth := l.depth + 1 }) hb _) ?_
  exact fun l hb => sameFill_push hb hdata

/-- A round of the printer on elements that prints an atom. -/
lemma fillHead_ofValue {next : List Node} {rest : List (List Node)}
    (hl : l.stack.levels = (.mk s list :: next) :: rest) (hs : s.ty = .value)
    (hb : Backed (.mk s list)) :
    fillHead g (fillLocalsOf l) =
      ((fillLocalsOf l).withWindow (Nodes.addAtom s l.toWindow) >>= FillLocals.next).mapError
        .inl := by
  have hlevels : (fillLocalsOf l).stack.levels = l.stack.levels.map elements := rfl
  rw [fillHead, hlevels, hl, @addAtom_element s list l.toWindow hs hb]
  by_cases ha : s.aty = .binary
  · simp only [List.map_cons, elements, element_blob hs ha]
    rfl
  · simp only [List.map_cons, elements, element_text hs ha]
    rfl

lemma sameFill_head (hb : BackedStack l.stack) :
    Loop.Lockstep (fun l l' => l' = fillLocalsOf l ∧ BackedStack l.stack) SameStop
      (Nodes.fillHead g l) (fillHead g (fillLocalsOf l)) := by
  have hlevels : (fillLocalsOf l).stack.levels = l.stack.levels.map elements := rfl
  rw [Nodes.fillHead]
  cases hl : l.stack.levels with
  | nil =>
    rw [fillHead, hlevels, hl]
    rfl
  | cons chain rest =>
    cases chain with
    | nil =>
      rw [fillHead, hlevels, hl]
      exact (sameFill_close hb).head
    | cons n next =>
      cases n with
      | mk s list =>
        have hchain := hb _ (hl ▸ List.mem_cons_self)
        dsimp only
        cases hs : s.ty with
        | list =>
          rw [fillHead, hlevels, hl]
          simp only [List.map_cons, elements, element_list hs]
          exact (sameFill_open hb ((backed_list hs).mp hchain.1)).head
        | value =>
          rw [fillHead_ofValue hl hs hchain.1]
          refine SameFill.head (sameFill_bind (sameFill_window hb _) ?_)
          exact fun l hb => sameFill_next hb

lemma fillFinish_same {size : Nat} {r : Option (FillStop ⊕ Nodes.FillState)}
    {r' : Option (FillStop ⊕ FillLocals)} (h : Option.Rel SameStop r r') :
    Nodes.fillFinish size r = fillFinish size r' := by
  cases h with
  | none => rfl
  | @some r r' h =>
    rw [SameStop] at h
    subst h
    cases r with
    | inl e => rfl
    | inr l => rfl

/-- `print_sexp` prints the element that the node stands for. -/
theorem printSexp_elements {junk : Nat → NodeFields} {sx : List Node} (hb : BackedAll sx) (n : Nat)
    (buf : List Byte) (size : Nat) (errno : ErrCode) :
    Nodes.printSexp g junk n buf size sx errno = printSexp g n buf size (elements sx) errno := by
  cases sx with
  | nil => rfl
  | cons x next =>
    have hcopy := @copySexp_elements g junk [Nodes.unlinked x] ⟨backed_unlinked hb.1, trivial⟩
      ⟨0, errno⟩
    rw [elements, elements, element_unlinked] at hcopy
    rw [Nodes.printSexp, elements, printSexp, ← hcopy]
    split_ifs
    · rfl
    cases hrun : Nodes.copySexp g junk [Nodes.unlinked x] ⟨0, errno⟩ with
    | error f => rfl
    | ok r =>
      obtain ⟨ms, h⟩ := r
      cases ms with
      | nil => rfl
      | cons m ms =>
        obtain ⟨hbacked, helement⟩ := relink_copy hb.1 hrun
        simp only [Except.map, elements]
        rw [← helement]
        split_ifs
        · rfl
        have hstart : BackedStack ⟨[], 0, 0⟩ := fun _ h => by cases h
        obtain ⟨hpush, hstack⟩ := @sameFill_push g ⟨⟨buf, 0, size⟩, h.next, ⟨[], 0, 0⟩, 0⟩
          [Nodes.relink m x] hstart ⟨hbacked, trivial⟩
        have hstep : ∀ l l', l' = fillLocalsOf l ∧ BackedStack l.stack →
            Loop.Lockstep (fun l l' => l' = fillLocalsOf l ∧ BackedStack l.stack) SameStop
              (Nodes.fillHead g l) (fillHead g l') := by
          rintro l l' ⟨rfl, hb⟩
          exact sameFill_head hb
        exact fillFinish_same (Loop.run_lockstep hstep ⟨hpush, hstack⟩ n)

end Filling

end Sfsexp.Proofs
