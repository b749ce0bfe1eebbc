import Mathlib.Tactic.Abel
import Sfsexp.Proofs.ParseStack
import Sfsexp.Spec.Ownership

/-!
# The memory of the parser

Without its meter the parser of the build that limits memory is `cparse_sexp`. A round turns the
blocks of the continuation into those of the continuation and of the tree that the round returns.
-/

namespace Sfsexp.Proofs

open Sfsexp Spec Metered AllocOp

section Erasure

variable {z : Sizes} {env : Env} {l : Locals} {c : Byte}

@[simp] lemma value_need {n : Nat} {undo : List AllocOp} :
    (Limited.need env n undo l).value = need env l := rfl

@[simp] lemma value_push {data : List Sexp} :
    (Limited.push z env data l).value = .ok (push env data l) := rfl

@[simp] lemma value_grow {keep : Bool} : (Limited.grow env keep l).value = grow env keep l := rfl

@[simp] lemma value_emit {aty : AtomT} : (Limited.emit z env aty l).value = emit env aty l := rfl

@[simp] lemma value_store : (Limited.store env c l).value = store env c l := by
  simp [Limited.store, store]

@[simp] lemma value_storeEsc : (Limited.storeEsc env c l).value = storeEsc env c l := by
  simp [Limited.storeEsc, storeEsc]

lemma value_state1 : (Limited.state1 env c l).value = state1 env c l := by
  rw [Limited.state1]
  split_ifs with h
  · rfl
  · simp only [not_or] at h
    obtain ⟨hw, hsemi, hl, hr, hd, ht⟩ := h
    rw [state1, if_neg hw, if_neg hsemi, if_neg hl, if_neg hr, if_neg hd, if_neg ht]
    simp only [value_bind, value_lift, value_grow, value_pure]

@[simp] lemma value_attachList : (Limited.attachList z env l).value = attachList env l := by
  rw [Limited.attachList, attachList]
  split_ifs with h
  · simp
  · rfl

lemma value_state2 : (Limited.state2 z env l).value = state2 env l := by
  simp [Limited.state2, state2]

lemma value_state3 : (Limited.state3 z l).value = state3 l := by
  rw [Limited.state3]
  split_ifs with h
  · rfl
  · rw [state3, if_neg h, value_bind, Limited.closeLevel]
    congr 1
    funext l'
    dsimp only
    split_ifs
    · rfl
    · rfl

lemma value_endBare : (Limited.endBare z env c l).value = endBare env c l := by
  rw [Limited.endBare, value_bind, value_lift]
  refine bind_congr fun l => ?_
  rw [value_bind, value_need]
  refine bind_congr fun l => ?_
  rw [value_bind, value_emit]
  rfl

lemma value_state4 : (Limited.state4 z env c l).value = state4 env c l := by
  rw [Limited.state4, state4]
  split_ifs
  · rfl
  · simp
  · exact value_endBare

@[simp] lemma value_closingQuote : (Limited.closingQuote env l).value = closingQuote env l := by
  rw [Limited.closingQuote, closingQuote]
  split_ifs
  · exact value_store
  · rfl

lemma value_endQuoted : (Limited.endQuoted z env l).value = endQuoted env l := by
  rw [Limited.endQuoted, value_bind, value_closingQuote]
  refine bind_congr fun l => ?_
  rw [value_bind, value_lift]
  refine bind_congr fun l => ?_
  rw [value_bind, value_need]
  refine bind_congr fun l => ?_
  rw [value_bind, value_emit]
  rfl

lemma value_state5Rest : (Limited.state5Rest z env c l).value = state5Rest env c l := by
  rw [Limited.state5Rest, state5Rest]
  split_ifs
  · exact value_endQuoted
  · simp

lemma value_state5 : (Limited.state5 z env c l).value = state5 env c l := by
  rw [Limited.state5, state5]
  split_ifs
  · simp [value_state5Rest]
  · exact value_state5Rest

lemma value_state7 : (Limited.state7 env c l).value = state7 env c l := by
  rw [Limited.state7]
  split_ifs with h
  · rw [state7, if_pos h]
    simp
  · rfl

lemma value_endQuotedList : (Limited.endQuotedList z env l).value = endQuotedList env l := by
  rw [Limited.endQuotedList, value_bind, value_lift]
  refine bind_congr fun l => ?_
  rw [value_bind, value_need]
  refine bind_congr fun l => ?_
  rw [value_bind, value_emit]
  rfl

lemma value_state9 : (Limited.state9 z env l).value = state9 env l := by
  rw [Limited.state9]
  split_ifs with h
  · rw [state9, if_pos h, value_endQuotedList]
  · rfl

lemma value_state8 : (Limited.state8 z env c l).value = state8 env c l := by
  rw [Limited.state8, state8, value_bind, value_storeEsc]
  congr 1
  funext l'
  dsimp only
  split_ifs
  · exact value_state9
  · rfl

lemma value_state10 : (Limited.state10 env c l).value = state10 env c l := by
  simp [Limited.state10, state10]

lemma value_state12 : (Limited.state12 env c l).value = state12 env c l := by
  rw [Limited.state12]
  split_ifs with h
  · rw [state12, if_pos h]
    simp
  · rfl

lemma value_state13 : (Limited.state13 env c l).value = state13 env c l := by
  rw [Limited.state13]
  split_ifs with h
  · rw [state13, if_pos h]
    simp
  · rfl

lemma value_endSize : (Limited.endSize env l).value = endSize env l := by
  rw [Limited.endSize, endSize, value_bind, value_lift]
  congr 1
  funext l'
  dsimp only
  split_ifs
  · simp
  · rfl

lemma value_state14 : (Limited.state14 env c l).value = state14 env c l := by
  rw [Limited.state14, state14]
  split_ifs
  · exact value_endSize
  · simp

lemma value_endBlob : (Limited.endBlob z env l).value = endBlob env l := by
  simp [Limited.endBlob, endBlob]

lemma value_state15 : (Limited.state15 z env l).value = state15 env l := by
  rw [Limited.state15, state15, value_bind, value_lift]
  congr 1
  funext l'
  split_ifs
  · exact value_endBlob
  · rfl

lemma value_finish : (Limited.finish z env l).value = .error (finish env l) := by
  rw [Limited.finish]
  split_ifs with h
  · rw [finish, if_pos h]
    rfl
  · rfl

lemma value_switch : (Limited.switch z env c l).value = switch env c l := by
  rw [Limited.switch, switch]
  cases hstate : l.state with
  | s1 => exact value_state1
  | s2 => exact value_state2
  | s3 => exact value_state3
  | s4 => exact value_state4
  | s5 => exact value_state5
  | s7 => exact value_state7
  | s8 => exact value_state8
  | s9 => exact value_state9
  | s10 => exact value_state10
  | s12 => exact value_state12
  | s13 => exact value_state13
  | s14 => exact value_state14
  | s15 => exact value_state15
  | _ => rfl

/-- Without its meter a round is a round of `cparse_sexp`. -/
theorem value_cparseHead : (Limited.cparseHead z env l).value = cparseHead env l := by
  rw [Limited.cparseHead, cparseHead]
  split_ifs with h15 ht
  · exact value_finish
  · exact value_state15
  · rw [value_bind, value_lift]
    congr 1
    funext c
    split_ifs
    · exact value_finish
    · exact value_switch

end Erasure

section Blocks

variable {z : Sizes}

@[simp] lemma blocks_nil : blocks z [] = 0 := by rw [blocks]

lemma blocks_cons (x : Sexp) (xs : List Sexp) :
    blocks z (x :: xs) = content z x + blocks z xs + {z.sexpT} := by rw [blocks]

lemma blocks_append (xs ys : List Sexp) : blocks z (xs ++ ys) = blocks z xs + blocks z ys := by
  induction xs with
  | nil => rw [List.nil_append, blocks_nil, zero_add]
  | cons x xs ih =>
    rw [List.cons_append, blocks_cons, blocks_cons, ih]
    abel

lemma content_list (elems : List Sexp) : content z (.list elems) = blocks z elems := by rw [content]

lemma content_value (aty : AtomT) (val : List Byte) (valAllocated valUsed : Nat) :
    content z (.value aty val valAllocated valUsed) = buffer val valAllocated := by rw [content]

lemma content_blob (bindata : Option (List Byte)) (binlength : Nat) :
    content z (.blob bindata binlength) = binary bindata binlength := by rw [content]

lemma buffer_set (val : List Byte) (i : Nat) (c : Byte) (n : Nat) :
    buffer (val.set i c) n = buffer val n := by
  simp [buffer]

lemma buffer_fresh (g : Setup) : buffer (g.fresh g.params.startSize) g.params.startSize =
    {g.params.startSize} := by
  rw [buffer, if_neg]
  have hpos := g.params.start_pos
  intro hnil
  have hlength := congrArg List.length hnil
  rw [Setup.length_fresh] at hlength
  exact absurd hlength (by simpa using hpos.ne')

/-- The fields that the blocks of a continuation depend on. -/
structure SameBlocks (r r' : Regs) : Prop where
  val : r'.val = r.val
  valAllocated : r'.valAllocated = r.valAllocated
  bindata : r'.bindata = r.bindata
  binexpected : r'.binexpected = r.binexpected
  stack : r'.stack = r.stack

lemma SameBlocks.owned {r r' : Regs} (h : SameBlocks r r') : owned z r' = owned z r := by
  rw [Spec.owned, Spec.owned, h.val, h.valAllocated, h.bindata, h.binexpected, h.stack]

/-- An element that is linked belongs to the continuation. -/
lemma owned_link {l l' : Locals} (h : link l = some l') :
    owned z l'.toRegs = owned z l.toRegs + blocks z l.sx := by
  rw [link] at h
  split at h
  · cases h
  · next top rest hlevels =>
    cases h
    simp only [owned, stackBlocks, hlevels, levelBlocks, blocks_append, List.length_cons]
    abel

end Blocks

/-- The blocks that a return leaves behind: those of the continuation and of the tree. -/
def leftBy (z : Sizes) : Stop → Option (Multiset Nat)
  | .ret r => some (owned z r.cc.toRegs + blocks z r.cc.lastSexp)
  | .fault _ => none

/-- A piece of a round that turns the blocks `m` into those of the continuation. -/
abbrev Balances (z : Sizes) (m : Multiset Nat) (x : Metered Stop Locals) : Prop :=
  Settles m x (fun l => owned z l.toRegs) (leftBy z)

section Pieces

variable {α : Type} {z : Sizes} {env : Env} {l : Locals} {c : Byte} {m : Multiset Nat}
  {f : Locals → Metered Stop α} {A : α → Multiset Nat}

lemma settles_fault {fault : Fault} : Settles m (lift (.error (.fault fault))) A (leftBy z) := by
  intro m' hm'
  cases hm'

lemma settles_save {x : Metered Stop α} {err : ErrCode} {ls : List Sexp}
    (hx : x.value = .error (l.save err ls)) :
    Settles m x A (leftBy z) ↔ Turns x.ops m (owned z l.toRegs + blocks z ls) := by
  rw [settles_error hx]
  constructor
  · intro h
    exact h _ rfl
  · intro h m' hm'
    obtain rfl := Option.some.inj hm'
    exact h

/-- What is written to the buffer does not matter; it is not `NULL`. -/
lemma settles_writeCur
    (hf : l.val ≠ [] → Settles m (f { l with val := l.val.set l.vcur c }) A (leftBy z)) :
    Settles m (lift (writeCur c l) >>= f) A (leftBy z) := by
  rw [writeCur]
  split_ifs with hlt
  · exact hf (List.ne_nil_of_length_pos (Nat.zero_lt_of_lt hlt))
  · exact settles_fault

lemma settles_need (h : env.Succeeds) {n : Nat} {undo : List AllocOp}
    (hf : Settles ({n} + m) (f { l with allocs := l.allocs + 1 }) A (leftBy z)) :
    Settles m (Limited.need env n undo l >>= f) A (leftBy z) := by
  refine Settles.bind (A := fun _ => {n} + m) ?_ ?_
  · rw [settles_ok (need_ok h l), Limited.need, if_pos (h _)]
    exact turns_alloc rfl
  · intro l' hl'
    rw [value_need, need_ok h] at hl'
    obtain rfl := Except.ok.inj hl'
    exact hf

/-- The atom takes the buffer over. -/
lemma settles_emit (h : env.Succeeds) {aty : AtomT}
    (hf : Settles (owned z (emitted env aty l).toRegs + blocks z (emitted env aty l).sx)
      (f (emitted env aty l)) A (leftBy z)) :
    Settles ({z.sexpT} + owned z l.toRegs) (Limited.emit z env aty l >>= f) A (leftBy z) := by
  refine Settles.bind
    (A := fun _ => owned z (emitted env aty l).toRegs + blocks z (emitted env aty l).sx) ?_ ?_
  · rw [settles_ok (emit_ok h aty l), Limited.emit, if_pos (h _)]
    apply turns_alloc
    simp only [emitted, owned, buffer_fresh, blocks_cons, content_value, blocks_nil]
    abel
  · intro l' hl'
    rw [value_emit, emit_ok h] at hl'
    obtain rfl := Except.ok.inj hl'
    exact hf

/-- The buffer grows in place of the old one. -/
lemma balances_grow (h : env.Succeeds) (keep : Bool) (hval : l.val ≠ []) :
    Balances z (owned z l.toRegs) (Limited.grow env keep l) := by
  by_cases hfull : l.valUsed = l.valAllocated
  · have hrun : (Limited.grow env keep l).value = .ok { l with
        val := l.val ++ env.fresh env.params.growSize, vcur := l.valUsed
        valAllocated := l.valAllocated + env.params.growSize, allocs := l.allocs + 1 } := by
      rw [value_grow, grow, if_pos hfull, if_pos (h _)]
    rw [Balances, settles_ok hrun]
    rw [Limited.grow, if_pos ⟨hfull, h _⟩]
    simp only [owned, buffer, List.append_eq_nil_iff, hval, false_and, if_false]
    exact turns_realloc rfl rfl
  · have hrun : (Limited.grow env keep l).value = .ok { l with vcur := l.vcur + 1 } := by
      rw [value_grow, grow, if_neg hfull]
    rw [Balances, settles_ok hrun, Limited.grow, if_neg fun hboth => hfull hboth.1]
    exact turns_nil

lemma balances_store (h : env.Succeeds) : Balances z (owned z l.toRegs) (Limited.store env c l) := by
  apply settles_writeCur
  intro hval
  have hgrow := @balances_grow z env { l with val := l.val.set l.vcur c, valUsed := l.valUsed + 1 } h
    true (by simpa using hval)
  simp only [owned, buffer_set] at hgrow ⊢
  exact hgrow

lemma balances_storeEsc (h : env.Succeeds) :
    Balances z (owned z l.toRegs) (Limited.storeEsc env c l) := by
  apply settles_writeCur
  intro hval
  have hgrow := @balances_grow z env { l with
    val := l.val.set l.vcur c, esc := c == backslash, valUsed := l.valUsed + 1 } h true
    (by simpa using hval)
  simp only [owned, buffer_set] at hgrow ⊢
  exact hgrow

/-- A further level. -/
lemma balances_push (h : env.Succeeds) (data : List Sexp) :
    Balances z (owned z l.toRegs + (blocks z data + {z.parseData})) (Limited.push z env data l) := by
  rw [Balances, settles_ok value_push, push_ok h, Limited.push]
  by_cases hspare : 0 < l.stack.spare
  · obtain ⟨n, hn⟩ := Nat.exists_eq_add_of_lt hspare
    rw [if_pos hspare]
    have hsame : l.stack.levels.length + 1 + (l.stack.spare - 1) =
        l.stack.levels.length + l.stack.spare := by omega
    apply turns_of_eq
    simp only [owned, stackBlocks, levelBlocks, List.length_cons, hsame]
    abel
  · have hzero : l.stack.spare = 0 := Nat.eq_zero_of_not_pos hspare
    rw [if_neg hspare, if_pos (h _)]
    apply turns_alloc
    simp only [owned, stackBlocks, levelBlocks, List.length_cons, hzero, Nat.add_zero, Nat.zero_sub,
      Multiset.replicate_succ, ← Multiset.singleton_add]
    abel

/-- The atom goes to the client or to the top level. -/
lemma balances_link (done next : Locals → Locals)
    (hdone : ∀ l : Locals, SameBlocks l.toRegs (done l).toRegs)
    (hnext : ∀ l : Locals, SameBlocks l.toRegs (next l).toRegs) :
    Balances z (owned z l.toRegs + blocks z l.sx)
      (lift (match link l with
        | none => .error ((done l).save .ok l.sx)
        | some l => .ok (next l))) := by
  cases hlink : link l with
  | none =>
    rw [Balances, settles_save rfl, (hdone l).owned]
    exact turns_nil
  | some l' =>
    change Turns [] _ (owned z (next l').toRegs)
    rw [(hnext l').owned, owned_link hlink]
    exact turns_nil

end Pieces

section States

variable {z : Sizes} {env : Env} {l : Locals} {c : Byte}

/-- Changes to the locals that no block depends on. -/
lemma balances_same {r : Regs} (h : SameBlocks r l.toRegs) :
    Balances z (owned z r) (lift (.ok l)) :=
  turns_of_eq h.owned.symm

lemma Settles.of_same {r : Regs} {x : Metered Stop Locals} (hx : Balances z (owned z l.toRegs) x)
    (h : SameBlocks r l.toRegs) : Balances z (owned z r) x := by
  rwa [← h.owned]

/-- Such changes at the end of a piece. -/
lemma Settles.same {m : Multiset Nat} {x : Metered Stop Locals} {next : Locals → Locals}
    (hx : Balances z m x) (hnext : ∀ l : Locals, SameBlocks l.toRegs (next l).toRegs) :
    Balances z m (x >>= fun l => pure (next l)) :=
  Settles.bind hx fun l' _ => balances_same (hnext l')

lemma balances_state1 (h : env.Succeeds) :
    Balances z (owned z l.toRegs) (Limited.state1 env c l) := by
  rw [Limited.state1]
  split_ifs with hkind
  · rw [state1]
    split_ifs with hw hs hl hr hd ht
    · exact balances_same ⟨rfl, rfl, rfl, rfl, rfl⟩
    · exact balances_same ⟨rfl, rfl, rfl, rfl, rfl⟩
    · rw [fire_eq]
      exact balances_same ⟨rfl, rfl, rfl, rfl, rfl⟩
    · exact balances_same ⟨rfl, rfl, rfl, rfl, rfl⟩
    · exact balances_same ⟨rfl, rfl, rfl, rfl, rfl⟩
    · exact balances_same ⟨rfl, rfl, rfl, rfl, rfl⟩
    · tauto
  · apply settles_writeCur
    intro hval
    refine Settles.same ?_ fun l' => ⟨rfl, rfl, rfl, rfl, rfl⟩
    have hgrow := @balances_grow z env { l with
      vcur := 0, val := l.val.set 0 c, esc := c == backslash, valUsed := l.valUsed + 1 } h false
      (by simpa using hval)
    simp only [owned, buffer_set] at hgrow ⊢
    exact hgrow

lemma balances_attachList (h : env.Succeeds) {L : List (List Sexp)} (hs : StackOk l.stack L)
    (hsx : l.sx = [.list []]) :
    Balances z ({z.sexpT} + owned z l.toRegs) (Limited.attachList z env l) := by
  have hblocks : blocks z l.sx = {z.sexpT} := by
    rw [hsx, blocks_cons, content_list, blocks_nil, zero_add, zero_add]
  rw [Limited.attachList]
  split_ifs with hheight
  · refine settles_need h ?_
    have hpush := @balances_push z env { l with allocs := l.allocs + 1 } h l.sx
    rw [hblocks] at hpush
    convert hpush using 1
    abel
  · cases L with
    | nil =>
      rw [hs.height, hs.levels] at hheight
      exact absurd Nat.zero_lt_one hheight
    | cons T Ls =>
      obtain ⟨s, hlink, -⟩ := link_open hs
      have howned := owned_link (z := z) hlink
      rw [hlink]
      change Turns [] _ (owned z _)
      rw [howned, hblocks, add_comm]
      exact turns_nil

lemma balances_state2 (h : env.Succeeds) {L : List (List Sexp)} (hs : StackOk l.stack L) :
    Balances z (owned z l.toRegs) (Limited.state2 z env l) := by
  refine settles_need h ?_
  refine Settles.bind (balances_attachList h hs rfl) ?_
  intro l₁ _
  refine settles_need h (Settles.same ?_ fun l' => ⟨rfl, rfl, rfl, rfl, rfl⟩)
  have hpush := @balances_push z env { l₁ with allocs := l₁.allocs + 1 } h []
  rw [blocks_nil, zero_add] at hpush
  rwa [add_comm]

/-- The chain of the level that is closed hangs on the element below. -/
lemma balances_closeLevel {top T : List Sexp} {rest : List (List Sexp)} {n : Nat}
    (hlevels : l.stack.levels = top :: (T ++ [.list []]) :: rest) (hheight : l.stack.height = n + 1) :
    (Limited.closeLevel z l).value = .ok { l with
        stack := ⟨(T ++ [.list top]) :: rest, l.stack.spare + 1, n⟩, sx := top } ∧
      Balances z (owned z l.toRegs) (Limited.closeLevel z l) := by
  have hrun : (Limited.closeLevel z l).value = .ok { l with
      stack := ⟨(T ++ [.list top]) :: rest, l.stack.spare + 1, n⟩, sx := top } := by
    rw [Limited.closeLevel, closeLevel]
    simp only [Faststack.pop, hlevels, hheight, setLast_concat]
  refine ⟨hrun, ?_⟩
  rw [Balances, settles_ok hrun, Limited.closeLevel]
  have hcells : rest.length + 1 + (l.stack.spare + 1) = rest.length + 1 + 1 + l.stack.spare := by
    omega
  apply turns_free
  simp only [owned, stackBlocks, hlevels, levelBlocks, List.length_cons, blocks_append, blocks_cons,
    content_list, blocks_nil, hcells]
  abel

/-- Outside of lists nothing but the last chain is on the stack. -/
lemma balances_returnTree {top : List Sexp} (hlevels : l.stack.levels = [top])
    (hheight : l.stack.height = 1) :
    Balances z (owned z l.toRegs) (Limited.returnTree z l) := by
  have hrun : (Limited.returnTree z l).value = .error ({ l with
      stack := ⟨[], l.stack.spare + 1, 0⟩, sx := top, esc := false, state := .s1 }.save .ok top) := by
    simp [Limited.returnTree, returnTree, hlevels, hheight, popAll]
  rw [Balances, settles_save hrun, Limited.returnTree, hlevels]
  change Turns [.free z.parseData] _ _
  have hcells : 0 + 1 + l.stack.spare = 0 + (l.stack.spare + 1) := by omega
  apply turns_free
  simp only [owned, stackBlocks, hlevels, levelBlocks, List.length_cons, List.length_nil, hcells]
  abel

lemma balances_state3 {L : List (List Sexp)} (hs : StackOk l.stack L) (hd : l.depth = L.length) :
    Balances z (owned z l.toRegs) (Limited.state3 z l) := by
  have hheight := hs.height
  rw [hs.levels] at hheight
  rw [Limited.state3]
  cases L with
  | nil =>
    have hzero : l.depth = 0 := hd
    have hsame : SameBlocks l.toRegs { l with esc := false, state := .s1 }.toRegs :=
      ⟨rfl, rfl, rfl, rfl, rfl⟩
    rw [if_pos hzero, state3_bad hzero, Balances, settles_save rfl, blocks_nil, add_zero, hsame.owned]
    exact turns_nil
  | cons T Ls =>
    have hpos : ¬ l.depth = 0 := by
      rw [hd]
      exact Nat.succ_ne_zero _
    rw [if_neg hpos]
    cases Ls with
    | nil =>
      obtain ⟨hrun, hclose⟩ := @balances_closeLevel z { l with t := l.t + 1, depth := l.depth - 1 } T
        [] [] 1 hs.levels hheight
      refine Settles.bind hclose ?_
      intro l' hl'
      rw [hrun] at hl'
      obtain rfl := Except.ok.inj hl'
      have hone : l.depth - 1 = 0 := by
        rw [hd]
        rfl
      dsimp only
      rw [fire_eq, if_pos hone]
      exact Settles.of_same (balances_returnTree rfl rfl) ⟨rfl, rfl, rfl, rfl, rfl⟩
    | cons T' Ls =>
      obtain ⟨hrun, hclose⟩ := @balances_closeLevel z { l with t := l.t + 1, depth := l.depth - 1 } T
        T' _ (Ls.length + 2) hs.levels (by rw [hheight]; simp [openLevels])
      refine Settles.bind hclose ?_
      intro l' hl'
      rw [hrun] at hl'
      obtain rfl := Except.ok.inj hl'
      have hmore : ¬ l.depth - 1 = 0 := by
        rw [hd]
        exact Nat.succ_ne_zero _
      dsimp only
      rw [fire_eq, if_neg hmore]
      exact balances_same ⟨rfl, rfl, rfl, rfl, rfl⟩

lemma balances_endBare (h : env.Succeeds) :
    Balances z (owned z l.toRegs) (Limited.endBare z env c l) := by
  apply settles_writeCur
  intro hval
  apply settles_need h
  have hsame : owned z { l with
      val := l.val.set l.vcur nul, valUsed := l.valUsed + 1, allocs := l.allocs + 1 }.toRegs =
      owned z l.toRegs := by
    simp only [owned, buffer_set]
  rw [← hsame]
  apply settles_emit h
  apply balances_link (fun l => { l with squoted := false, state := .s1, esc := false }) (afterBare c)
  · exact fun l => ⟨rfl, rfl, rfl, rfl, rfl⟩
  · intro l
    rw [afterBare]
    split_ifs
    · exact ⟨rfl, rfl, rfl, rfl, rfl⟩
    · exact ⟨rfl, rfl, rfl, rfl, rfl⟩
    · exact ⟨rfl, rfl, rfl, rfl, rfl⟩

lemma balances_overwrite : Balances z (owned z l.toRegs) (lift (overwrite c l)) := by
  rw [overwrite]
  split
  · exact settles_fault
  · split_ifs
    · apply turns_of_eq
      simp only [owned, buffer_set]
    · exact settles_fault

lemma balances_state4 (h : env.Succeeds) :
    Balances z (owned z l.toRegs) (Limited.state4 z env c l) := by
  rw [Limited.state4]
  split_ifs
  · exact balances_overwrite
  · exact Settles.same (balances_storeEsc h) fun l' => ⟨rfl, rfl, rfl, rfl, rfl⟩
  · exact balances_endBare h

lemma balances_closingQuote (h : env.Succeeds) :
    Balances z (owned z l.toRegs) (Limited.closingQuote env l) := by
  rw [Limited.closingQuote]
  split_ifs
  · exact balances_store h
  · exact balances_same ⟨rfl, rfl, rfl, rfl, rfl⟩

lemma balances_endQuoted (h : env.Succeeds) :
    Balances z (owned z l.toRegs) (Limited.endQuoted z env l) := by
  refine Settles.bind (balances_closingQuote h) ?_
  intro l₁ _
  apply settles_writeCur
  intro hval
  apply settles_need h
  have hsame : owned z { l₁ with
      val := l₁.val.set l₁.vcur nul, valUsed := l₁.valUsed + 1, squoted := false
      allocs := l₁.allocs + 1 }.toRegs = owned z l₁.toRegs := by
    simp only [owned, buffer_set]
  rw [← hsame]
  apply settles_emit h
  exact balances_link
    (fun l => { l with t := l.t + 1, squoted := false, esc := false, state := .s1 })
    (fun l => { l with t := l.t + 1 }) (fun l => ⟨rfl, rfl, rfl, rfl, rfl⟩)
    fun l => ⟨rfl, rfl, rfl, rfl, rfl⟩

lemma balances_state5Rest (h : env.Succeeds) :
    Balances z (owned z l.toRegs) (Limited.state5Rest z env c l) := by
  rw [Limited.state5Rest]
  split_ifs
  · exact Settles.of_same (balances_endQuoted h) ⟨rfl, rfl, rfl, rfl, rfl⟩
  · exact Settles.same (balances_store h) fun l' => ⟨rfl, rfl, rfl, rfl, rfl⟩

lemma balances_state5 (h : env.Succeeds) :
    Balances z (owned z l.toRegs) (Limited.state5 z env c l) := by
  rw [Limited.state5]
  split_ifs
  · refine Settles.bind balances_overwrite ?_
    intro l₁ _
    rw [Env.read]
    split
    · exact balances_state5Rest h
    · exact settles_fault
  · exact balances_state5Rest h

lemma balances_state7 (h : env.Succeeds) :
    Balances z (owned z l.toRegs) (Limited.state7 env c l) := by
  rw [Limited.state7]
  split_ifs with hquote
  · refine Settles.same ?_ fun l' => ⟨rfl, rfl, rfl, rfl, rfl⟩
    exact Settles.of_same (balances_store h) ⟨rfl, rfl, rfl, rfl, rfl⟩
  · rw [state7, if_neg hquote]
    split_ifs
    · exact balances_same ⟨rfl, rfl, rfl, rfl, rfl⟩
    · exact balances_same ⟨rfl, rfl, rfl, rfl, rfl⟩

lemma balances_endQuotedList (h : env.Succeeds) :
    Balances z (owned z l.toRegs) (Limited.endQuotedList z env l) := by
  apply settles_writeCur
  intro hval
  apply settles_need h
  have hsame : owned z { l with val := l.val.set l.vcur nul, allocs := l.allocs + 1 }.toRegs =
      owned z l.toRegs := by
    simp only [owned, buffer_set]
  rw [← hsame]
  apply settles_emit h
  exact balances_link (fun l => { l with squoted := false, esc := false, state := .s1 }) id
    (fun l => ⟨rfl, rfl, rfl, rfl, rfl⟩) fun l => ⟨rfl, rfl, rfl, rfl, rfl⟩

lemma balances_state9 (h : env.Succeeds) :
    Balances z (owned z l.toRegs) (Limited.state9 z env l) := by
  rw [Limited.state9]
  split_ifs with hdepth
  · exact Settles.of_same (balances_endQuotedList h) ⟨rfl, rfl, rfl, rfl, rfl⟩
  · rw [state9, if_neg hdepth]
    exact balances_same ⟨rfl, rfl, rfl, rfl, rfl⟩

lemma sameBlocks_countParen : SameBlocks l.toRegs (countParen c l).toRegs := by
  rw [countParen]
  split_ifs
  · exact ⟨rfl, rfl, rfl, rfl, rfl⟩
  · exact ⟨rfl, rfl, rfl, rfl, rfl⟩
  · exact ⟨rfl, rfl, rfl, rfl, rfl⟩
  · exact ⟨rfl, rfl, rfl, rfl, rfl⟩
  · exact ⟨rfl, rfl, rfl, rfl, rfl⟩

lemma balances_state8 (h : env.Succeeds) :
    Balances z (owned z l.toRegs) (Limited.state8 z env c l) := by
  refine Settles.bind (Settles.of_same (balances_storeEsc h) sameBlocks_countParen) ?_
  intro l₁ _
  dsimp only
  split_ifs
  · exact Settles.of_same (balances_state9 h) ⟨rfl, rfl, rfl, rfl, rfl⟩
  · exact balances_same ⟨rfl, rfl, rfl, rfl, rfl⟩

lemma balances_state10 (h : env.Succeeds) :
    Balances z (owned z l.toRegs) (Limited.state10 env c l) := by
  refine Settles.same ?_ fun l' => ⟨rfl, rfl, rfl, rfl, rfl⟩
  split_ifs
  · exact Settles.of_same (balances_storeEsc h) ⟨rfl, rfl, rfl, rfl, rfl⟩
  · exact balances_storeEsc h

lemma balances_state12 (h : env.Succeeds) :
    Balances z (owned z l.toRegs) (Limited.state12 env c l) := by
  rw [Limited.state12]
  split_ifs with hb
  · exact Settles.same (balances_storeEsc h) fun l' => ⟨rfl, rfl, rfl, rfl, rfl⟩
  · rw [state12, if_neg hb]
    exact balances_same ⟨rfl, rfl, rfl, rfl, rfl⟩

lemma balances_state13 (h : env.Succeeds) :
    Balances z (owned z l.toRegs) (Limited.state13 env c l) := by
  rw [Limited.state13]
  split_ifs with hhash
  · exact Settles.same (balances_storeEsc h) fun l' => ⟨rfl, rfl, rfl, rfl, rfl⟩
  · rw [state13, if_neg hhash]
    exact balances_same ⟨rfl, rfl, rfl, rfl, rfl⟩

/-- The bytes of a new blob; there was none before. -/
lemma balances_endSize (h : env.Succeeds) (hnone : l.bindata = none) :
    Balances z (owned z l.toRegs) (Limited.endSize env l) := by
  apply settles_writeCur
  intro hval
  dsimp only
  split_ifs with hpos
  · apply settles_need h
    apply turns_of_eq
    simp only [owned, binary, buffer_set, hnone, Option.isSome_none, Option.isSome_some, if_true,
      Bool.false_eq_true, if_false]
    abel
  · apply turns_of_eq
    simp only [owned, binary, buffer_set, hnone, Option.isSome_none, Bool.false_eq_true, if_false]

lemma balances_state14 (h : env.Succeeds) (hnone : l.bindata = none) :
    Balances z (owned z l.toRegs) (Limited.state14 env c l) := by
  rw [Limited.state14]
  split_ifs
  · exact Settles.of_same (balances_endSize h hnone) ⟨rfl, rfl, rfl, rfl, rfl⟩
  · exact Settles.same (balances_storeEsc h) fun l' => ⟨rfl, rfl, rfl, rfl, rfl⟩

lemma balances_readBlob : Balances z (owned z l.toRegs) (lift (readBlob env l)) := by
  rw [readBlob]
  split_ifs
  · rw [Env.read]
    split
    · rw [ok_bind]
      split
      · exact settles_fault
      · next data hdata =>
        split_ifs
        · apply turns_of_eq
          simp only [owned, binary, hdata, Option.isSome_some]
        · exact settles_fault
    · exact settles_fault
  · exact balances_same ⟨rfl, rfl, rfl, rfl, rfl⟩

/-- The bytes go to the atom, which is put on the top level. -/
lemma balances_endBlob (h : env.Succeeds) (hend : l.binread = l.binexpected)
    (hopen : l.stack.levels ≠ []) : Balances z (owned z l.toRegs) (Limited.endBlob z env l) := by
  apply settles_need h
  rw [fire_eq]
  dsimp only
  obtain ⟨top, rest, hlevels⟩ := List.exists_cons_of_ne_nil hopen
  apply turns_of_eq
  rw [link, hlevels]
  simp only [Option.getD_some, owned, stackBlocks, hlevels, levelBlocks, List.length_cons,
    blocks_append, blocks_cons, content_blob, blocks_nil, hend, binary, Option.isSome_none,
    Bool.false_eq_true, if_false]
  abel

end States

end Sfsexp.Proofs
