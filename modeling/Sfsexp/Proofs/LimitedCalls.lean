import Sfsexp.Proofs.HeldBlobs

/-!
# The memory of a call

A call turns the blocks of a continuation into those of the continuation and of the tree it returns,
and the functions that destroy give back what there is.
-/

namespace Sfsexp.Proofs

open Sfsexp Spec Metered AllocOp

/-- The elements that ended in this call and were not returned belong to lists that are open. -/
structure Rooted (l : Locals) : Prop where
  shaped : ∃ s, Shaped l.toRegs s
  nested : 0 < l.elts → l.stack.levels ≠ []

/-- What the memory of the locals rests on. -/
structure Accounted (l : Locals) : Prop extends Rooted l where
  blob : BlobHeld l.toRegs

/-- The same of a continuation between two calls. -/
structure AccountedRegs (r : Regs) : Prop where
  shaped : ∃ s, Shaped r s
  blob : BlobHeld r

section Rounds

variable {z : Sizes} {env : Env} {l l' : Locals} {R : Return}

lemma Rooted.depth (hl : Rooted l) (hd : l.depth = 0) : ¬ 0 < l.elts := by
  obtain ⟨s, hs⟩ := hl.shaped
  exact fun helts => hl.nested helts (hs.parseStack.empty.mp hd)

/-- The code after the loop, which never finds a tree. -/
lemma holdsBlob_finish (hl : Accounted l) : HoldsBlob (.error (finish env l)) := by
  rw [finish, if_neg fun hboth => hl.depth hboth.1 hboth.2]
  split
  · exact trivial
  · exact hl.blob

lemma holdsBlob_cparseHead (hl : Accounted l) : HoldsBlob (cparseHead env l) := by
  rw [cparseHead]
  split_ifs with h15 hend
  · exact holdsBlob_finish hl
  · exact holdsBlob_state15 h15
  · rw [Env.read]
    split
    · rw [ok_bind]
      split_ifs
      · exact holdsBlob_finish hl
      · exact holdsBlob_switch hl.blob
    · exact trivial

/-- A round that ends no element leaves no list that was open empty. -/
lemma levels_of_stays (h : env.Succeeds) (hl : Rooted l) (hrun : cparseHead env l = .ok l')
    (helts : ¬ l.elts < l'.elts) :
    l'.elts = l.elts ∧ (l.stack.levels ≠ [] → l'.stack.levels ≠ []) := by
  obtain ⟨s, L, A, hi⟩ := hl.shaped
  have hstay : Links.leaves env l = false := by
    by_contra hleave
    rcases head_of_leaves (by simpa using hleave) with hexit | hexit
    · rw [hexit] at hrun
      cases hrun
    · rw [hexit] at hrun
      cases hrun
  by_cases hs2 : l.state = .s2
  · obtain ⟨s, k, hopen, -⟩ := state2_ok h hi.stack
    rcases head_of_stays hstay with ⟨c, hc⟩ | hexit
    · rw [hc, switch, hs2] at hrun
      dsimp only at hrun
      rw [hopen] at hrun
      obtain rfl := Except.ok.inj hrun
      exact absurd (Nat.lt_succ_self _) helts
    · rw [hexit] at hrun
      cases hrun
  · by_cases hs3 : l.state = .s3
    · rcases head_of_stays hstay with ⟨c, hc⟩ | hexit
      · rw [hc, switch, hs3] at hrun
        dsimp only at hrun
        rcases L with _ | ⟨T, _ | ⟨T', Ls⟩⟩
        · rw [state3_bad hi.depth] at hrun
          cases hrun
        · obtain ⟨s, hclose, -⟩ := state3_outer hi.stack hi.depth
          rw [hclose] at hrun
          cases hrun
        · obtain ⟨s, hclose, hs⟩ := state3_inner hi.stack hi.depth
          rw [hclose] at hrun
          obtain rfl := Except.ok.inj hrun
          refine ⟨rfl, fun _ => ?_⟩
          dsimp only
          rw [hs.levels]
          exact List.cons_ne_nil _ _
      · rw [hexit] at hrun
        cases hrun
    · have hadds := adds_of_stays h hstay hi.state hs2 hs3
      rw [hrun] at hadds
      rcases hadds.2.2 with ⟨hsame, hstack⟩ | ⟨x, hmore, -⟩
      · exact ⟨hsame, fun hne => by rwa [hstack]⟩
      · exact absurd (by omega) helts

lemma rooted_next (h : env.Succeeds) (hn : Nested env l) (hl : Rooted l)
    (hrun : cparseHead env l = .ok l') : Rooted l' := by
  obtain ⟨s, hs⟩ := hl.shaped
  obtain ⟨s', -, hs'⟩ := linkHead_of_ok h hs hrun
  refine ⟨⟨s', hs'⟩, fun hpos => ?_⟩
  by_cases helts : l.elts < l'.elts
  · exact hn l' hrun helts
  · obtain ⟨hsame, hlevels⟩ := levels_of_stays h hl hrun helts
    exact hlevels (hl.nested (by omega))

lemma accounted_next (h : env.Succeeds) (hn : Nested env l) (hl : Accounted l)
    (hrun : cparseHead env l = .ok l') : Accounted l' := by
  have hblob : HoldsBlob (cparseHead env l) := holdsBlob_cparseHead hl
  rw [hrun] at hblob
  exact ⟨rooted_next h hn hl.toRooted hrun, hblob⟩

lemma accounted_return (h : env.Succeeds) (hl : Accounted l)
    (hrun : cparseHead env l = .error (.ret R)) : AccountedRegs R.cc.toRegs := by
  obtain ⟨s, hs⟩ := hl.shaped
  obtain ⟨s', -, hk⟩ := linkHead_of_error h hs hrun
  have hblob : HoldsBlob (cparseHead env l) := holdsBlob_cparseHead hl
  rw [hrun] at hblob
  exact ⟨⟨s', hk.shaped⟩, hblob⟩

lemma balances_finish (hl : Accounted l) : Balances z (owned z l.toRegs) (Limited.finish z env l) := by
  have hnone : ¬ (l.depth = 0 ∧ 0 < l.elts) := fun hboth => hl.depth hboth.1 hboth.2
  rw [Limited.finish, if_neg hnone, finish, if_neg hnone]
  split
  · exact settles_fault
  · intro m' hm'
    obtain rfl := Option.some.inj hm'
    rw [blocks_nil, add_zero]
    exact turns_nil

lemma balances_state15 (h : env.Succeeds) (hopen : ∀ l₁, readBlob env l = .ok l₁ →
      l₁.binread = l₁.binexpected → l₁.stack.levels ≠ []) :
    Balances z (owned z l.toRegs) (Limited.state15 z env l) := by
  refine Settles.bind balances_readBlob ?_
  intro l₁ hl₁
  split_ifs with hend
  · exact balances_endBlob h hend (hopen l₁ hl₁ hend)
  · exact balances_same ⟨rfl, rfl, rfl, rfl, rfl⟩

/-- Outside of lists the last byte of a blob ends an element that no list takes. -/
lemma open_of_nested (h : env.Succeeds) (hn : Nested env l) (h15 : l.state = .s15)
    (hend : l.t ≠ env.len) {l₁ : Locals} (hread : readBlob env l = .ok l₁)
    (hlast : l₁.binread = l₁.binexpected) : l₁.stack.levels ≠ [] := by
  intro hempty
  have helts : l₁.elts = l.elts := by
    rw [readBlob] at hread
    split_ifs at hread
    · rw [Env.read] at hread
      split at hread
      · rw [ok_bind] at hread
        split at hread
        · cases hread
        · split_ifs at hread
          obtain rfl := Except.ok.inj hread
          rfl
      · cases hread
    · obtain rfl := Except.ok.inj hread
      rfl
  obtain ⟨l₂, hrun, hmore, hstack⟩ : ∃ l₂, endBlob env l₁ = .ok l₂ ∧ l₁.elts < l₂.elts ∧
      l₂.stack = l₁.stack := by
    rw [endBlob, need_ok h, ok_bind, fire_eq]
    refine ⟨_, rfl, ?_, ?_⟩
    · simp [link, hempty]
    · simp [link, hempty]
  have hhead : cparseHead env l = .ok l₂ := by
    rw [cparseHead, if_pos h15, if_neg hend, state15, hread, ok_bind, if_pos hlast, hrun]
  exact hn l₂ hhead (by omega) (by rw [hstack, hempty])

/-- The rounds that end no size and read no byte of a blob. -/
lemma balances_switch (h : env.Succeeds) {c : Byte} {L : List (List Sexp)} (hs : StackOk l.stack L)
    (hd : l.depth = L.length) (hstate : l.state ≠ .unknown) (h14 : l.state ≠ .s14)
    (h15 : l.state ≠ .s15) : Balances z (owned z l.toRegs) (Limited.switch z env c l) := by
  rw [Limited.switch]
  cases hcase : l.state with
  | s1 => exact balances_state1 h
  | s2 => exact balances_state2 h hs
  | s3 => exact balances_state3 hs hd
  | s4 => exact balances_state4 h
  | s5 => exact balances_state5 h
  | s6 =>
    rw [switch, hcase]
    exact balances_same ⟨rfl, rfl, rfl, rfl, rfl⟩
  | s7 => exact balances_state7 h
  | s8 => exact balances_state8 h
  | s9 => exact balances_state9 h
  | s10 => exact balances_state10 h
  | s11 =>
    rw [switch, hcase]
    exact balances_same ⟨rfl, rfl, rfl, rfl, rfl⟩
  | s12 => exact balances_state12 h
  | s13 => exact balances_state13 h
  | s14 => exact absurd hcase h14
  | s15 => exact absurd hcase h15
  | unknown => exact absurd hcase hstate

/-- A round of the parser. -/
lemma balances_cparseHead (h : env.Succeeds) (hn : Nested env l) (hl : Accounted l) :
    Balances z (owned z l.toRegs) (Limited.cparseHead z env l) := by
  obtain ⟨s, L, A, hi⟩ := hl.shaped
  rw [Limited.cparseHead]
  split_ifs with h15 hend
  · exact balances_finish hl
  · exact balances_state15 h fun l₁ hread hlast => open_of_nested h hn h15 hend hread hlast
  · rw [Env.read]
    split
    · next c hc =>
      change Balances z _ (if c = nul ∨ l.t = env.len then _ else _)
      split_ifs with hend
      · exact balances_finish hl
      · by_cases h14 : l.state = .s14
        · rw [Limited.switch, h14]
          exact balances_state14 h (hl.blob (by simp [h14]))
        · exact balances_switch h hi.stack hi.depth hi.state h14 h15
    · exact settles_fault

end Rounds

section Calls

variable {z : Sizes} {g : Setup} {buf : List Byte} {len allocs : Nat} {cc : Pcont} {R : Return}

lemma steady_next {env : Env} {l l' : Locals} (h : env.Succeeds) (hl : Accounted l ∧ StaysNested env l)
    (hstep : cparseHead env l = .ok l') : Accounted l' ∧ StaysNested env l' :=
  ⟨accounted_next h (hl.2 l .refl) hl.1 hstep, fun _ hreach => hl.2 _ (.head hstep hreach)⟩

lemma runParser_ret (hrun : runParser g buf len cc allocs = .ret R) :
    Loop.run (cparseHead ⟨g, buf, len⟩) (fuel ⟨g, buf, len⟩) (cc.enter allocs) = some (.ret R) := by
  rw [runParser] at hrun
  rcases hloop : Loop.run (cparseHead ⟨g, buf, len⟩) (fuel ⟨g, buf, len⟩) (cc.enter allocs) with
    _ | _ | _
  · rw [hloop] at hrun
    cases hrun
  · rw [hloop] at hrun
    cases hrun
    rfl
  · rw [hloop] at hrun
    cases hrun

/-- A call turns the blocks of the continuation into those of the continuation and of the tree that it
returns. -/
lemma turns_parserOps (h : g.Succeeds) (hcc : AccountedRegs cc.toRegs)
    (hn : StaysNested ⟨g, buf, len⟩ (cc.enter allocs))
    (hrun : runParser g buf len cc allocs = .ret R) :
    Turns (Limited.parserOps z g buf len cc allocs) (owned z cc.toRegs)
        (owned z R.cc.toRegs + blocks z R.cc.lastSexp) ∧
      AccountedRegs R.cc.toRegs := by
  have hstart : Accounted (cc.enter allocs) ∧ StaysNested ⟨g, buf, len⟩ (cc.enter allocs) :=
    ⟨⟨⟨hcc.shaped, fun hpos => absurd hpos (Nat.lt_irrefl 0)⟩, hcc.blob⟩, hn⟩
  have hloop := runParser_ret hrun
  constructor
  · have hround : ∀ l, Accounted l ∧ StaysNested ⟨g, buf, len⟩ l →
        Balances z (owned z l.toRegs) (Limited.cparseHead z ⟨g, buf, len⟩ l) :=
      fun l hl => balances_cparseHead h (hl.2 l .refl) hl.1
    refine turns_loop hround (fun l l' hl hstep => ?_) hstart (r := .ret R) ?_ rfl
    · rw [value_cparseHead] at hstep
      exact steady_next h hl hstep
    · rw [loop_value_same fun l => value_cparseHead, hloop]
  · obtain ⟨l, hreach, hret⟩ := Loop.exit_of_halts ⟨_, hloop⟩
    have hl := Loop.invariant_of_step (fun l l' hl hstep => steady_next h hl hstep) hstart hreach
    exact accounted_return h hl.1 hret

lemma turns_initOps (h : g.Succeeds) :
    Turns (Limited.initOps z g) 0 (owned z (Pcont.new g).toRegs) := by
  have hnew : owned z (Pcont.new g).toRegs =
      {z.pcont} + ({g.params.startSize} + ({z.faststack} + 0)) := by
    simp only [owned, Pcont.new, buffer_fresh, binary, Option.isSome_none, Bool.false_eq_true,
      if_false, stackBlocks, makeStack, levelBlocks, List.length_nil, Nat.add_zero,
      Multiset.replicate_zero]
    abel
  rw [Limited.initOps]
  simp only [h _, Bool.not_true, Bool.false_eq_true, if_false, hnew]
  have hpcont : Turns [.alloc z.pcont] 0 ({z.pcont} + 0) := turns_alloc rfl
  have hval : Turns [.alloc g.params.startSize] ({z.pcont} + 0)
      ({g.params.startSize} + ({z.pcont} + 0)) := turns_alloc rfl
  refine hpcont.append (hval.append (turns_alloc ?_))
  abel

lemma accounted_new (g : Setup) : AccountedRegs (Pcont.new g).toRegs :=
  ⟨⟨_, shaped_new g⟩, fun _ => rfl⟩

end Calls

section Teardown

variable {z : Sizes}

mutual
/-- `destroy_sexp` frees what the chain consists of. -/
lemma turns_destroySexp (xs : List Sexp) : Turns (Limited.destroySexp z xs) (blocks z xs) 0 := by
  cases xs with
  | nil =>
    rw [Limited.destroySexp, blocks_nil]
    exact turns_nil
  | cons x xs =>
    rw [Limited.destroySexp, blocks_cons]
    have hcontent := (turns_destroyContent x).frame (blocks z xs + {z.sexpT})
    have hnext := (turns_destroySexp xs).frame {z.sexpT}
    rw [zero_add] at hcontent hnext
    rw [add_assoc]
    exact (hcontent.append hnext).append (turns_free (add_zero _).symm)

lemma turns_destroyContent (x : Sexp) : Turns (Limited.destroyContent z x) (content z x) 0 := by
  cases x with
  | value aty val valAllocated valUsed =>
    rw [Limited.destroyContent, content_value, buffer]
    split_ifs
    · exact turns_nil
    · exact turns_free (add_zero _).symm
  | blob bindata binlength =>
    rw [Limited.destroyContent, content_blob, binary]
    split_ifs
    · exact turns_free (add_zero _).symm
    · exact turns_nil
  | list elems =>
    rw [Limited.destroyContent, content_list]
    exact turns_destroySexp elems
end

lemma turns_destroyLevels (levels : List (List Sexp)) :
    Turns (levels.flatMap fun fst => Limited.destroySexp z fst ++ [.free z.parseData])
      (levelBlocks z levels) 0 := by
  induction levels with
  | nil => exact turns_nil
  | cons fst rest ih =>
    rw [List.flatMap_cons, levelBlocks, add_assoc]
    have hchain := (turns_destroySexp (z := z) fst).frame ({z.parseData} + levelBlocks z rest)
    rw [zero_add] at hchain
    exact (hchain.append (turns_free rfl)).append ih

/-- `destroy_continuation` frees what the continuation consists of, also in the middle of an
expression. -/
lemma turns_destroyContinuation (cc : Pcont) :
    Turns (Limited.destroyContinuation z cc) (owned z cc.toRegs) 0 := by
  have hstack : Turns (Limited.destroyStack z cc.stack)
      (Multiset.replicate (cc.stack.levels.length + cc.stack.spare) z.stackLvl + {z.faststack}) 0 := by
    have hlevels := (turns_free_replicate (cc.stack.levels.length + cc.stack.spare) z.stackLvl).frame
      {z.faststack}
    rw [zero_add] at hlevels
    exact hlevels.append (turns_free (add_zero _).symm)
  have hbin : Turns (if cc.bindata.isSome then [.free cc.binexpected] else [])
      (binary cc.bindata cc.binexpected) 0 := by
    rw [binary]
    split_ifs
    · exact turns_free (add_zero _).symm
    · exact turns_nil
  have hval : Turns (if cc.val = [] then [] else [.free cc.valAllocated])
      (buffer cc.val cc.valAllocated) 0 := by
    rw [buffer]
    split_ifs
    · exact turns_nil
    · exact turns_free (add_zero _).symm
  have hpcont : Turns [.free z.pcont] {z.pcont} 0 := turns_free (add_zero _).symm
  have hall : owned z cc.toRegs = levelBlocks z cc.stack.levels +
      ((Multiset.replicate (cc.stack.levels.length + cc.stack.spare) z.stackLvl + {z.faststack}) +
        (binary cc.bindata cc.binexpected + (buffer cc.val cc.valAllocated + {z.pcont}))) := by
    rw [owned, stackBlocks]
    abel
  have h₁ := (turns_destroyLevels (z := z) cc.stack.levels).frame
    ((Multiset.replicate (cc.stack.levels.length + cc.stack.spare) z.stackLvl + {z.faststack}) +
      (binary cc.bindata cc.binexpected + (buffer cc.val cc.valAllocated + {z.pcont})))
  have h₂ := hstack.frame
    (binary cc.bindata cc.binexpected + (buffer cc.val cc.valAllocated + {z.pcont}))
  have h₃ := hbin.frame (buffer cc.val cc.valAllocated + {z.pcont})
  have h₄ := hval.frame {z.pcont}
  rw [zero_add] at h₁ h₂ h₃ h₄
  rw [hall]
  exact (((h₁.append h₂).append h₃).append h₄).append hpcont

end Teardown

end Sfsexp.Proofs
