import Sfsexp.Proofs.LimitedCalls
import Sfsexp.Proofs.LimitedPrinters
import Sfsexp.Proofs.NormalMode
import Sfsexp.Spec.LimitedRuns

/-!
# The memory of a client run

Each action of a client turns the blocks behind what it has into the blocks behind what it has
afterwards, so that a client that gives everything back leaves nothing behind.
-/

namespace Sfsexp.Proofs

open Sfsexp Spec Metered AllocOp

section Calls

variable {z : Sizes} {g : Setup} {str : Option (List Byte)} {len : Nat} {lc : Option Pcont}
  {errno : ErrCode} {r : Return}

/-- The blocks of a continuation that may be `NULL`. -/
def ownedBy (z : Sizes) (lc : Option Pcont) : Multiset Nat := lc.elim 0 fun cc => owned z cc.toRegs

lemma turns_noString {cc : Pcont} (hcc : AccountedRegs cc.toRegs) {ops : List AllocOp}
    {m : Multiset Nat} (h : Turns ops m (owned z cc.toRegs)) :
    Turns ops m (owned z cc.toRegs + blocks z []) ∧ AccountedRegs cc.toRegs := by
  rw [blocks_nil, add_zero]
  exact ⟨h, hcc⟩

/-- A call of `cparse_sexp`. -/
lemma turns_cparseOps (h : g.Succeeds) (hcall : NestedCall ⟨g, str, len, lc⟩)
    (hlc : ∀ cc ∈ lc, AccountedRegs cc.toRegs)
    (hrun : cparseSexp g str len lc errno = .ret r) :
    Turns (Limited.cparseOps z g str len lc) (ownedBy z lc)
        (owned z r.cc.toRegs + blocks z r.cc.lastSexp) ∧
      AccountedRegs r.cc.toRegs := by
  have hinit := initContinuation_of_succeeds h
  obtain ⟨hmode, hnested⟩ := hcall
  cases lc with
  | none =>
    cases str with
    | none =>
      rw [cparseSexp, hinit] at hrun
      cases hrun
      exact turns_noString (accounted_new g) (turns_initOps h)
    | some buf =>
      rw [cparseSexp, hinit] at hrun
      obtain ⟨hparse, hleft⟩ := turns_parserOps (z := z) h (accounted_new g) (hnested _ _ hinit) hrun
      rw [Limited.cparseOps, hinit]
      exact ⟨(turns_initOps h).append hparse, hleft⟩
  | some cc =>
    cases str with
    | none =>
      rw [cparseSexp] at hrun
      cases hrun
      exact turns_noString (hlc cc rfl) turns_nil
    | some buf =>
      rw [cparseSexp, if_neg (hmode cc rfl)] at hrun
      exact turns_parserOps h (hlc cc rfl) hnested hrun

end Calls

section Strings

variable {z : Sizes} {g : Setup} {o : Output}

lemma turns_strim (h : g.Succeeds) :
    Turns (Limited.strimOps g o) (stringBlocks z o.str) (stringBlocks z (strim g o).str) := by
  rw [Limited.strimOps, strim]
  cases hstr : o.str with
  | none =>
    apply turns_of_eq
    simp only [hstr]
  | some s =>
    by_cases htrim : s.len = s.curlen + 1
    · simp only [htrim, true_or, if_true]
      apply turns_of_eq
      simp only [hstr]
    · simp only [htrim, h _, Bool.not_true, Bool.false_eq_true, or_self, if_true, if_false]
      exact turns_realloc rfl rfl

lemma turns_sdestroy (c : CString) :
    Turns (Limited.sdestroy z c) (stringBlocks z (some c)) 0 := by
  have hbase : Turns [.free c.len] ({c.len} + {z.cstring}) {z.cstring} := turns_free rfl
  exact hbase.append (turns_free (add_zero _).symm)

lemma stringBlocks_sempty : stringBlocks z (sempty o).str = stringBlocks z o.str := by
  rw [sempty]
  cases o.str <;> rfl

end Strings

section Constructors

variable {z : Sizes} {g : Setup} {h h' : Heap}

lemma turns_newSexpList {elems : List Sexp} {x : Sexp} (hrun : newSexpList g elems h = (some x, h')) :
    Turns (Limited.newSexpListOps z g h) (blocks z elems) (blocks z [x]) := by
  rw [newSexpList] at hrun
  split_ifs at hrun with halloc
  · cases hrun
  · cases hrun
    rw [Limited.newSexpListOps, if_neg halloc, blocks_singleton, content_list]
    exact turns_alloc (add_comm _ _)

lemma turns_newSexpAtom {buf : List Byte} {bs : Nat} {aty : AtomT} {x : Option Sexp}
    (hrun : newSexpAtom g buf bs aty h = .ok (x, h')) :
    Turns (Limited.newSexpAtomOps z g bs aty h) 0 (blocks z x.toList) := by
  have hnode : Turns [.alloc z.sexpT] 0 {z.sexpT} := turns_alloc (add_zero _).symm
  rw [newSexpAtom] at hrun
  rw [Limited.newSexpAtomOps]
  by_cases hbin : aty = .binary
  · rw [if_pos hbin] at hrun
    cases hrun
    rw [if_pos (.inl hbin)]
    exact turns_of_eq blocks_nil.symm
  · rw [if_neg hbin] at hrun
    cases hfirst : g.alloc h.allocs with
    | false =>
      rw [hfirst] at hrun
      cases hrun
      rw [if_pos (.inr rfl)]
      exact turns_of_eq blocks_nil.symm
    | true =>
      rw [hfirst] at hrun
      rw [if_neg (by simp [hbin])]
      cases hsecond : g.alloc h.next.allocs with
      | false =>
        rw [hsecond] at hrun
        cases hrun
        exact hnode.append (turns_free (by rw [Option.toList_none, blocks_nil, add_zero]))
      | true =>
        rw [hsecond] at hrun
        simp only [Bool.not_true, Bool.false_eq_true, if_false] at hrun ⊢
        split_ifs at hrun
        cases hrun
        apply hnode.append
        apply turns_alloc
        rw [Option.toList_some, blocks_singleton, content_value, buffer, if_neg (by simp)]

end Constructors

/-- The continuations of a client are as calls leave them. -/
def ContsAccounted (s : Holdings) : Prop := ∀ cc ∈ s.conts, AccountedRegs cc.toRegs

section Runs

variable {z : Sizes} {s s' : Holdings} {more : List AllocOp}

lemma held_conts (cs conts : Multiset Pcont) (trees : Multiset (List Sexp))
    (strings : Multiset CString) :
    held z ⟨cs + conts, trees, strings⟩ =
      (cs.map fun cc => owned z cc.toRegs).sum + held z ⟨conts, trees, strings⟩ := by
  simp only [held, Multiset.map_add, Multiset.sum_add]
  abel

lemma held_trees (ts trees : Multiset (List Sexp)) (conts : Multiset Pcont)
    (strings : Multiset CString) :
    held z ⟨conts, ts + trees, strings⟩ =
      (ts.map (blocks z)).sum + held z ⟨conts, trees, strings⟩ := by
  simp only [held, Multiset.map_add, Multiset.sum_add]
  abel

lemma held_strings (cs strings : Multiset CString) (conts : Multiset Pcont)
    (trees : Multiset (List Sexp)) :
    held z ⟨conts, trees, cs + strings⟩ =
      (cs.map fun c => stringBlocks z (some c)).sum + held z ⟨conts, trees, strings⟩ := by
  simp only [held, Multiset.map_add, Multiset.sum_add]
  abel

@[simp] lemma held_cont (cc : Pcont) (conts : Multiset Pcont) (trees : Multiset (List Sexp))
    (strings : Multiset CString) :
    held z ⟨cc ::ₘ conts, trees, strings⟩ = owned z cc.toRegs + held z ⟨conts, trees, strings⟩ := by
  rw [← Multiset.singleton_add, held_conts, Multiset.map_singleton, Multiset.sum_singleton]

@[simp] lemma held_tree (t : List Sexp) (trees : Multiset (List Sexp)) (conts : Multiset Pcont)
    (strings : Multiset CString) :
    held z ⟨conts, t ::ₘ trees, strings⟩ = blocks z t + held z ⟨conts, trees, strings⟩ := by
  rw [← Multiset.singleton_add, held_trees, Multiset.map_singleton, Multiset.sum_singleton]

@[simp] lemma held_string (c : CString) (strings : Multiset CString) (conts : Multiset Pcont)
    (trees : Multiset (List Sexp)) :
    held z ⟨conts, trees, c ::ₘ strings⟩ =
      stringBlocks z (some c) + held z ⟨conts, trees, strings⟩ := by
  rw [← Multiset.singleton_add, held_strings, Multiset.map_singleton, Multiset.sum_singleton]

/-- A continuation that may be `NULL`. -/
@[simp] lemma held_toHold_cont (lc : Option Pcont) (conts : Multiset Pcont)
    (trees : Multiset (List Sexp)) (strings : Multiset CString) :
    held z ⟨toHold lc + conts, trees, strings⟩ = ownedBy z lc + held z ⟨conts, trees, strings⟩ := by
  rw [held_conts]
  cases lc with
  | none => rfl
  | some cc => rw [toHold, Option.elim_some, Multiset.map_singleton, Multiset.sum_singleton]; rfl

@[simp] lemma held_toHold_string (str : Option CString) (strings : Multiset CString)
    (conts : Multiset Pcont) (trees : Multiset (List Sexp)) :
    held z ⟨conts, trees, toHold str + strings⟩ =
      stringBlocks z str + held z ⟨conts, trees, strings⟩ := by
  rw [held_strings]
  cases str with
  | none => rfl
  | some c => rw [toHold, Option.elim_some, Multiset.map_singleton, Multiset.sum_singleton]

/-- The printers do nothing for `NULL`. -/
lemma turns_printed {g : Setup} (hg : g.Succeeds) {n size : Nat} {buf : List Byte} {sx : List Sexp}
    {errno : ErrCode} {p : Filled} (hx : ∀ x ∈ sx.head?, Disposable x)
    (hrun : printSexp g n buf size sx errno = .ret p) :
    Turns (Limited.printSexp z g n buf size sx errno) 0 0 := by
  cases sx with
  | nil => exact turns_nil
  | cons x xs =>
    obtain ⟨hroot, hnone⟩ := rootBuffer_of_disposable (hx x rfl)
    have hprinted := turns_printSexp (z := z) hg hroot hrun
    rwa [hnone, ite_self] at hprinted

lemma turns_printedCstr {g : StringSetup} (hg : g.Succeeds) {n ss : Nat} {str : Option CString}
    {sx : List Sexp} {errno : ErrCode} {p : Printed} (hx : ∀ x ∈ sx.head?, Disposable x)
    (hrun : printSexpCstr g n str sx ss errno = .ret p) :
    Turns (Limited.printSexpCstr z g n str sx ss errno) (stringBlocks z str)
      (stringBlocks z p.str) := by
  cases sx with
  | nil =>
    cases hrun
    exact turns_nil
  | cons x xs =>
    obtain ⟨hroot, hnone⟩ := rootBuffer_of_disposable (hx x rfl)
    have hprinted := turns_printSexpCstr (z := z) hg hroot hrun
    have hcopied : ∀ n, x ≠ .blob none n := by
      rintro n rfl
      exact hx _ rfl
    rwa [unprinted_copied hcopied, hnone, add_zero] at hprinted

/-- An action of a client. -/
lemma turns_step (hs : ContsAccounted s) (hstep : LimitedStep NestedCall z s more s') :
    Turns more (held z s) (held z s') := by
  cases hstep with
  | initContinuation hg hrun =>
    obtain ⟨rfl, -⟩ := initContinuation_eq_new hrun
    rw [held_cont]
    exact (turns_initOps hg).make _
  | configure mode handlers =>
    rw [held_cont, held_cont]
    exact turns_nil
  | cparseSexp hg hcall hrun =>
    have hturns := turns_cparseOps (z := z) hg hcall (fun cc hcc => hs cc ?_) hrun
    · rw [held_toHold_cont, held_cont, held_tree, ← add_assoc]
      exact hturns.1.frame _
    · cases hcc
      exact Multiset.mem_add.mpr (.inl (Multiset.mem_singleton_self _))
  | printSexp hg hx hrun =>
    have hprinted := (turns_printed (z := z) hg hx hrun).make (held z s)
    rwa [zero_add] at hprinted
  | printSexpCstr hg hx hrun =>
    rw [held_toHold_string, held_toHold_string]
    exact (turns_printedCstr hg hx hrun).frame _
  | snew size heap hg =>
    rw [held_toHold_string]
    exact (turns_snew hg size heap).make _
  | append hg hrun =>
    rw [held_toHold_string, held_toHold_string]
    exact (Settles.turns (keepsString_append hg _) hrun).frame _
  | strim hg =>
    rw [held_toHold_string, held_toHold_string]
    exact (turns_strim hg).frame _
  | sempty =>
    rw [held_toHold_string, held_toHold_string, stringBlocks_sempty]
    exact turns_nil
  | copySexp hxs hrun =>
    rw [held_tree]
    exact (Settles.turns (settles_copySexp _ _ hxs _) ((value_copySexp _ _ _).trans hrun)).make _
  | newSexpList hrun =>
    rw [held_tree, held_tree]
    exact (turns_newSexpList hrun).frame _
  | newSexpAtom hrun =>
    rw [held_tree]
    exact (turns_newSexpAtom hrun).make _
  | link =>
    rw [held_tree, held_tree, held_tree, blocks_append, add_assoc]
    exact turns_nil
  | destroySexp =>
    rw [held_tree]
    exact (turns_destroySexp _).give _
  | sdestroy =>
    rw [held_string]
    exact (turns_sdestroy _).give _
  | destroyContinuation =>
    rw [held_cont]
    exact (turns_destroyContinuation _).give _

/-- What a call stores in its continuation can be taken up by the next call. -/
lemma accounted_step (hs : ContsAccounted s) (hstep : LimitedStep NestedCall z s more s') :
    ContsAccounted s' := by
  cases hstep with
  | initContinuation hg hrun =>
    obtain ⟨rfl, -⟩ := initContinuation_eq_new hrun
    exact Multiset.forall_mem_cons.mpr ⟨accounted_new _, hs⟩
  | configure mode handlers =>
    obtain ⟨hcc, hrest⟩ := Multiset.forall_mem_cons.mp hs
    obtain ⟨links, L, A, hi⟩ := hcc.shaped
    exact Multiset.forall_mem_cons.mpr
      ⟨⟨⟨links, L, A, hi.state, hi.stack, hi.depth, hi.chained, hi.lengths⟩, hcc.blob⟩, hrest⟩
  | cparseSexp hg hcall hrun =>
    have hturns := turns_cparseOps (z := z) hg hcall (fun cc hcc => hs cc ?_) hrun
    · exact Multiset.forall_mem_cons.mpr
        ⟨hturns.2, fun cc hcc => hs cc (Multiset.mem_add.mpr (.inr hcc))⟩
    · cases hcc
      exact Multiset.mem_add.mpr (.inl (Multiset.mem_singleton_self _))
  | destroyContinuation => exact fun cc hcc => hs cc (Multiset.mem_cons_of_mem hcc)
  | _ => exact hs

lemma accounted_run {ops : List AllocOp} (h : LimitedRun NestedCall z ops s) :
    ContsAccounted s ∧ Turns ops 0 (held z s) := by
  induction h with
  | start => exact ⟨fun cc hcc => absurd hcc (Multiset.notMem_zero cc), turns_of_eq rfl⟩
  | step h hstep ih => exact ⟨accounted_step ih.1 hstep, ih.2.append (turns_step ih.1 hstep)⟩

end Runs

/-- A continuation that has only been used in mode `PARSER_NORMAL`. -/
def UsedNormally (cc : Pcont) : Prop := Normal { cc.toRegs with mode := .normal }

section NormalRuns

variable {z : Sizes} {s s' : Holdings} {ops more : List AllocOp} {g : Setup} {cc : Pcont}
  {str : Option (List Byte)} {len : Nat} {lc : Option Pcont} {errno : ErrCode} {r : Return}

lemma Normal.usedNormally (h : Normal cc.toRegs) : UsedNormally cc := by
  rw [UsedNormally, ← h.mode]
  exact h

lemma UsedNormally.normal (h : UsedNormally cc) (hmode : cc.mode = .normal) : Normal cc.toRegs := by
  rw [UsedNormally, ← hmode] at h
  exact h

lemma UsedNormally.configure (h : UsedNormally cc) (mode : ParserMode) (handlers : Option Handlers) :
    UsedNormally { cc with mode := mode, eventHandlers := handlers } := by
  obtain ⟨links, L, A, hi⟩ := h.stack
  exact ⟨rfl, h.textual, ⟨⟨h.buffer.room.cells, h.buffer.room.free⟩, h.buffer.token⟩, links, L, A,
    hi.state, hi.stack, hi.depth, hi.chained, hi.lengths⟩

lemma normal_next {env : Env} {l l' : Locals} (h : env.Succeeds) (hl : NormalHead l)
    (hstep : cparseHead env l = .ok l') : NormalHead l' := by
  have hround := normal_cparseHead h hl
  rwa [hstep] at hround

/-- In mode `PARSER_NORMAL` an element that ends outside of lists is returned. -/
lemma staysNested_normal {env : Env} (h : env.Succeeds) (hcc : Normal cc.toRegs) (allocs : Nat) :
    StaysNested env (cc.enter allocs) := by
  intro l hreach l' hrun hmore hempty
  have hl := Loop.invariant_of_step (fun _ _ => normal_next h) (hcc.enter allocs) hreach
  have hl' := normal_next h hl hrun
  obtain ⟨links, hshape⟩ := hl'.normal.stack
  have hnone := hl'.fresh (hshape.parseStack.empty.mpr hempty)
  omega

/-- So is the continuation that a call in mode `PARSER_NORMAL` leaves behind. -/
lemma normal_runParser (h : g.Succeeds) {buf : List Byte} {allocs : Nat} (hcc : Normal cc.toRegs)
    (hrun : runParser g buf len cc allocs = .ret r) : Normal r.cc.toRegs := by
  obtain ⟨l, hreach, hret⟩ := Loop.exit_of_halts ⟨_, runParser_ret hrun⟩
  have henv : (Env.mk g buf len).Succeeds := h
  have hl := Loop.invariant_of_step (fun _ _ => normal_next henv) (hcc.enter allocs) hreach
  have hround := normal_cparseHead henv hl
  rwa [hret] at hround

/-- A call in mode `PARSER_NORMAL`. -/
lemma nested_of_normal (h : g.Succeeds) (hcall : NormalCall ⟨g, str, len, lc⟩)
    (hlc : ∀ cc ∈ lc, UsedNormally cc) (hrun : cparseSexp g str len lc errno = .ret r) :
    NestedCall ⟨g, str, len, lc⟩ ∧ UsedNormally r.cc := by
  have hinit := initContinuation_of_succeeds h
  have hmode : ∀ cc ∈ lc, cc.mode ≠ .eventsOnly := by
    intro cc hcc
    rw [hcall cc hcc]
    exact ParserMode.noConfusion
  cases lc with
  | none =>
    cases str with
    | none =>
      rw [cparseSexp, hinit] at hrun
      cases hrun
      exact ⟨⟨hmode, trivial⟩, (normal_new g).usedNormally⟩
    | some buf =>
      rw [cparseSexp, hinit] at hrun
      refine ⟨⟨hmode, ?_⟩, (normal_runParser h (normal_new g) hrun).usedNormally⟩
      intro cc allocs hcc
      obtain ⟨rfl, -⟩ := initContinuation_eq_new hcc
      exact staysNested_normal h (normal_new g) allocs
  | some cc =>
    have hnormal := (hlc cc rfl).normal (hcall cc rfl)
    cases str with
    | none =>
      rw [cparseSexp] at hrun
      cases hrun
      exact ⟨⟨hmode, trivial⟩, hnormal.usedNormally⟩
    | some buf =>
      rw [cparseSexp, if_neg (hmode cc rfl)] at hrun
      exact ⟨⟨hmode, staysNested_normal h hnormal 0⟩, (normal_runParser h hnormal hrun).usedNormally⟩

/-- The actions of a client whose calls are all made in mode `PARSER_NORMAL`. -/
lemma nested_step (hs : ∀ cc ∈ s.conts, UsedNormally cc) (hstep : LimitedStep NormalCall z s more s') :
    LimitedStep NestedCall z s more s' ∧ ∀ cc ∈ s'.conts, UsedNormally cc := by
  cases hstep with
  | initContinuation hg hrun =>
    refine ⟨.initContinuation hg hrun, ?_⟩
    obtain ⟨rfl, -⟩ := initContinuation_eq_new hrun
    exact Multiset.forall_mem_cons.mpr ⟨(normal_new _).usedNormally, hs⟩
  | configure mode handlers =>
    obtain ⟨hcc, hrest⟩ := Multiset.forall_mem_cons.mp hs
    exact ⟨.configure mode handlers,
      Multiset.forall_mem_cons.mpr ⟨hcc.configure mode handlers, hrest⟩⟩
  | cparseSexp hg hcall hrun =>
    have hnested := nested_of_normal hg hcall (fun cc hcc => hs cc ?_) hrun
    · exact ⟨.cparseSexp hg hnested.1 hrun, Multiset.forall_mem_cons.mpr
        ⟨hnested.2, fun cc hcc => hs cc (Multiset.mem_add.mpr (.inr hcc))⟩⟩
    · cases hcc
      exact Multiset.mem_add.mpr (.inl (Multiset.mem_singleton_self _))
  | printSexp hg hx hrun => exact ⟨.printSexp hg hx hrun, hs⟩
  | printSexpCstr hg hx hrun => exact ⟨.printSexpCstr hg hx hrun, hs⟩
  | snew size heap hg => exact ⟨.snew size heap hg, hs⟩
  | append hg hrun => exact ⟨.append hg hrun, hs⟩
  | strim hg => exact ⟨.strim hg, hs⟩
  | sempty => exact ⟨.sempty, hs⟩
  | copySexp hxs hrun => exact ⟨.copySexp hxs hrun, hs⟩
  | newSexpList hrun => exact ⟨.newSexpList hrun, hs⟩
  | newSexpAtom hrun => exact ⟨.newSexpAtom hrun, hs⟩
  | link => exact ⟨.link, hs⟩
  | destroySexp => exact ⟨.destroySexp, hs⟩
  | sdestroy => exact ⟨.sdestroy, hs⟩
  | destroyContinuation =>
    exact ⟨.destroyContinuation, fun cc hcc => hs cc (Multiset.mem_cons_of_mem hcc)⟩

lemma nested_run (h : LimitedRun NormalCall z ops s) :
    LimitedRun NestedCall z ops s ∧ ∀ cc ∈ s.conts, UsedNormally cc := by
  induction h with
  | start => exact ⟨.start, fun cc hcc => absurd hcc (Multiset.notMem_zero cc)⟩
  | step h hstep ih =>
    obtain ⟨hnested, hleft⟩ := nested_step ih.2 hstep
    exact ⟨.step ih.1 hnested, hleft⟩

end NormalRuns

section Counter

variable {ops : List AllocOp} {live live' : Multiset Nat} {m m' : Ledger} {size oldsize : Nat}

/-- What a request that is served adds to the counter. -/
lemma used_request {amount : UInt64} {given p : Nat} {served : Nat → List (Nat × Nat)}
    (h : (m.request amount (some given) served).1 = some p) :
    (m.request amount (some given) served).2.usedMemory = m.usedMemory + amount := by
  rw [Ledger.request] at h ⊢
  split_ifs at h ⊢
  rfl

lemma toNat_ofNat (h : size < 2 ^ 64) : (UInt64.ofNat size).toNat = size := by
  rw [UInt64.toNat_ofNat']
  exact Nat.mod_eq_of_lt h

/-- A live block is not larger than all of them together. -/
lemma sum_of_mem (h : size ∈ live) : live.sum = size + (live.erase size).sum := by
  rw [← Multiset.sum_cons, Multiset.cons_erase h]

lemma counted_alloc (hm : m.usedMemory.toNat = live.sum) (hfits : (size ::ₘ live).sum < 2 ^ 64) :
    (m.usedMemory + .ofNat size).toNat = (size ::ₘ live).sum := by
  rw [Multiset.sum_cons] at hfits ⊢
  rw [UInt64.toNat_add, toNat_ofNat (by omega), hm]
  omega

lemma counted_realloc (hm : m.usedMemory.toNat = live.sum) (hold : oldsize ∈ live)
    (hlive : live.sum < 2 ^ 64) (hfits : (size ::ₘ live.erase oldsize).sum < 2 ^ 64) :
    (m.usedMemory + (.ofNat size - .ofNat oldsize)).toNat = (size ::ₘ live.erase oldsize).sum := by
  have hsum := sum_of_mem hold
  rw [Multiset.sum_cons] at hfits ⊢
  rw [UInt64.toNat_add, UInt64.toNat_sub, toNat_ofNat (by omega), toNat_ofNat (by omega), hm]
  omega

lemma counted_free (hm : m.usedMemory.toNat = live.sum) (hold : size ∈ live)
    (hlive : live.sum < 2 ^ 64) (p : Nat) :
    (m.sexpFree p (.ofNat size)).2.usedMemory.toNat = (live.erase size).sum := by
  have hsum := sum_of_mem hold
  have hsize : (UInt64.ofNat size).toNat = size := toNat_ofNat (by omega)
  have hle : ¬ m.usedMemory < UInt64.ofNat size := by
    rw [UInt64.lt_iff_toNat_lt, hsize, hm]
    omega
  rw [Ledger.sexpFree, if_neg hle]
  change (m.usedMemory - .ofNat size).toNat = _
  rw [UInt64.toNat_sub_of_le _ _ (UInt64.not_lt.mp hle), hsize, hm]
  omega

lemma now_of_bytesFit (h : BytesFit ops live) : live.sum < 2 ^ 64 := by
  cases ops with
  | nil => exact h
  | cons op ops => exact h.1

/-- The counter follows the live bytes. -/
lemma counted_served (hserved : Served ops m m') (hfits : BytesFit ops live)
    (hops : replay ops live = some live') (hm : m.usedMemory.toNat = live.sum) :
    m'.usedMemory.toNat = live'.sum := by
  induction hserved generalizing live with
  | nil =>
    cases hops
    exact hm
  | sexpMalloc h hrest ih =>
    have hlater := hfits.2 _ rfl
    apply ih hlater hops
    rw [Ledger.sexpMalloc, used_request h]
    exact counted_alloc hm (now_of_bytesFit hlater)
  | sexpCalloc h hrest ih =>
    have hlater := hfits.2 _ rfl
    apply ih hlater hops
    rw [Ledger.sexpCalloc, used_request h, UInt64.mul_one]
    exact counted_alloc hm (now_of_bytesFit hlater)
  | sexpRealloc h hrest ih =>
    obtain ⟨live₁, hrun, hops⟩ := Option.bind_eq_some_iff.mp hops
    have hlater := hfits.2 _ hrun
    rw [AllocOp.run] at hrun
    split_ifs at hrun with hold
    cases hrun
    apply ih hlater hops
    rw [Ledger.sexpRealloc, used_request h]
    exact counted_realloc hm hold (now_of_bytesFit hfits) (now_of_bytesFit hlater)
  | sexpFree hrest ih =>
    obtain ⟨live₁, hrun, hops⟩ := Option.bind_eq_some_iff.mp hops
    have hlater := hfits.2 _ hrun
    rw [AllocOp.run] at hrun
    split_ifs at hrun with hold
    cases hrun
    exact ih hlater hops (counted_free hm hold (now_of_bytesFit hfits) _)

end Counter

/-- The memory balances in every client run whose calls are made in mode `PARSER_NORMAL`, or end no
binary atom outside of lists. Whatever else is live, each call that passes the size of a block passes
that of a live one, and behind the run exactly the blocks of what the client still has are left.
`sexp_used_memory` follows, so that it is back where it was once everything is given back. -/
theorem memory_balances {C : ParseCall → Prop} {z : Sizes} {ops : List AllocOp} {s : Holdings}
    (hC : C = NormalCall ∨ C = NestedCall) (h : LimitedRun C z ops s) (live : Multiset Nat) :
    replay ops live = some (held z s + live) ∧
      ∀ m m', Served ops m m' → BytesFit ops live → m.usedMemory.toNat = live.sum →
        m'.usedMemory.toNat = (held z s).sum + live.sum := by
  have hnested : LimitedRun NestedCall z ops s := by
    rcases hC with rfl | rfl
    · exact (nested_run h).1
    · exact h
  have hreplay : replay ops live = some (held z s + live) := by
    have hturns := (accounted_run hnested).2 live
    rwa [zero_add] at hturns
  refine ⟨hreplay, ?_⟩
  intro m m' hserved hfits hm
  rw [counted_served hserved hfits hreplay hm, Multiset.sum_add]

/-- What a call of the printer returns. -/
def printedOf : PrintResult → Option Printed
  | .ret p => some p
  | _ => none

lemma of_printedOf {x : PrintResult} {p : Printed} (h : printedOf x = some p) : x = .ret p := by
  cases x <;> cases h
  rfl

/-- A client that has `(a)` parsed, prints the list and destroys the list, the string and, in the end,
the continuation. -/
theorem memory_balances_list : ∃ ops, ops ≠ [] ∧ LimitedRun NormalCall .lp64 ops ⟨0, 0, 0⟩ ∧
    ∀ live, replay ops live = some live := by
  have hcheck : ((cparseSexp .plain (some [lparen, 97, rparen, nul]) 3 none .ok).returnOf.bind
      fun r =>
      (printedOf (printSexpCstr .plain 10 none r.cc.lastSexp 16 .ok)).bind fun p =>
        p.str.map fun _ => decide (∀ x ∈ r.cc.lastSexp.head?, Disposable x)) = some true := by
    decide +kernel
  obtain ⟨r, hret, hprint⟩ := Option.bind_eq_some_iff.mp hcheck
  obtain ⟨p, hprinted, hstring⟩ := Option.bind_eq_some_iff.mp hprint
  obtain ⟨c, hstr, hdisposable⟩ := Option.map_eq_some_iff.mp hstring
  have hplain : Setup.plain.Succeeds := fun _ => rfl
  have hcall : LimitedStep NormalCall .lp64 ⟨0, 0, 0⟩ _ ⟨{r.cc}, {r.cc.lastSexp}, 0⟩ :=
    .cparseSexp (s := ⟨0, 0, 0⟩) hplain (fun cc hcc => by cases hcc)
      (of_returnOf hret)
  have hprint : LimitedStep NormalCall .lp64 ⟨{r.cc}, {r.cc.lastSexp}, 0⟩ _
      ⟨{r.cc}, {r.cc.lastSexp}, toHold p.str + 0⟩ :=
    .printSexpCstr (s := ⟨{r.cc}, {r.cc.lastSexp}, 0⟩) hplain (of_decide_eq_true hdisposable)
      (of_printedOf hprinted)
  rw [hstr] at hprint
  have hfirst := (LimitedRun.start.step hcall).step hprint
  have hlast := ((hfirst.step (.destroySexp (s := ⟨{r.cc}, 0, {c}⟩))).step
    (.sdestroy (s := ⟨{r.cc}, 0, 0⟩))).step (.destroyContinuation (s := ⟨0, 0, 0⟩))
  refine ⟨_, List.append_ne_nil_of_right_ne_nil _ (by simp [Limited.destroyContinuation]), hlast, ?_⟩
  intro live
  rw [(memory_balances (.inl rfl) hlast live).1]
  exact congrArg some (zero_add live)

end Sfsexp.Proofs
