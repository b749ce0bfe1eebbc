import Sfsexp.Lib.Cells
import Sfsexp.Model.Calls

/-!
# Pieces of a round, and the atom buffer

How the pieces of a round end, and what the code that appends to the atom buffer does when allocations succeed and the cursor stands
behind the used part: the byte goes to a cell of the buffer, and there is room again afterwards.
Both parsers have their own copy of this code.
-/

namespace Sfsexp.Proofs

open Sfsexp

/-- How a piece of a round ends: it goes on with `Q`, returns with `P`, or is undefined with `F`. -/
def Post (Q : Locals → Prop) (P : Return → Prop) (F : Fault → Prop) : Exec Locals → Prop
  | .ok l => Q l
  | .error (.ret r) => P r
  | .error (.fault f) => F f

section Post

variable {Q R : Locals → Prop} {P P' : Return → Prop} {F : Fault → Prop}

lemma Post.bind {x : Exec Locals} {f : Locals → Exec Locals} (hx : Post Q P F x)
    (hf : ∀ l, Q l → Post R P F (f l)) : Post R P F (x >>= f) := by
  match x, hx with
  | .ok l, hx => exact hf l hx
  | .error (.ret _), hx => exact hx
  | .error (.fault _), hx => exact hx

lemma Post.mono {x : Exec Locals} (hx : Post Q P F x) (hQ : ∀ l, Q l → R l)
    (hP : ∀ r, P r → P' r) : Post R P' F x := by
  match x, hx with
  | .ok l, hx => exact hQ l hx
  | .error (.ret r), hx => exact hP r hx
  | .error (.fault _), hx => exact hx

lemma Post.of_ret {stop : Stop} (h : Post Q P F (.error stop)) (r : Return) (hr : stop = .ret r) :
    P r := by
  subst hr
  exact h

end Post

/-- The buffer has `valAllocated` cells and one of them is free. -/
structure Room (l : Regs) : Prop where
  cells : l.val.length = l.valAllocated
  free : l.valUsed < l.valAllocated

/-- The part of the locals that the buffer consists of. -/
def SameBuffer (l l' : Regs) : Prop :=
  l'.val = l.val ∧ l'.valAllocated = l.valAllocated ∧ l'.valUsed = l.valUsed

lemma Room.same {l l' : Regs} (hr : Room l) (h : SameBuffer l l') : Room l' := by
  obtain ⟨hv, ha, hu⟩ := h
  exact ⟨by rw [hv, ha]; exact hr.cells, by rw [hu, ha]; exact hr.free⟩

lemma link_frame {l l' : Locals} (h : link l = some l') : l' = { l with stack := l'.stack } := by
  unfold link at h
  split at h
  · cases h
  · cases h
    rfl

lemma writeCur_ok {c : Byte} {l : Locals} (h : l.vcur < l.val.length) :
    writeCur c l = .ok { l with val := l.val.set l.vcur c } := by
  rw [writeCur, if_pos h]

lemma overwrite_ok {c : Byte} {l : Locals} {n : Nat} (hv : l.vcur = n + 1)
    (h : n < l.val.length) :
    overwrite c l = .ok { l with val := l.val.set n c, t := l.t + 1, esc := false } := by
  rw [overwrite, hv]
  simp only [h, if_true]

lemma overwrite_start {c : Byte} {l : Locals} (hv : l.vcur = 0) :
    overwrite c l = .error (.fault .atomBuffer) := by
  rw [overwrite, hv]

lemma need_ok {env : Env} (h : env.Succeeds) (l : Locals) :
    need env l = .ok { l with allocs := l.allocs + 1 } := by
  rw [need, if_pos (h _)]

lemma push_ok {env : Env} (h : env.Succeeds) (data : List Sexp) (l : Locals) :
    push env data l =
      { l with stack := ⟨data :: l.stack.levels, l.stack.spare - 1, l.stack.height + 1⟩
               allocs := l.allocs + if 0 < l.stack.spare then 0 else 1 } := by
  rw [push]
  by_cases hs : 0 < l.stack.spare
  · simp [hs]
  · have h0 : l.stack.spare - 1 = 0 := by omega
    simp [hs, h0, h _]

/-- `l` after `c` was appended behind the used part of the buffer: `v` and `a` are the buffer and
its size afterwards. -/
structure Appended (c : Byte) (l : Locals) (v : List Byte) (a : Nat) : Prop where
  cells : v.length = a
  free : l.valUsed + 1 < a
  text : v.take (l.valUsed + 1) = l.val.take l.valUsed ++ [c]

/-- The growth code, when the last used cell was written. -/
lemma grow_ok {env : Env} (h : env.Succeeds) (keep : Bool) {c : Byte} {l : Locals}
    (hr : Room l.toRegs) {m : Locals} (hl : m.val = l.val.set l.valUsed c)
    (ha : m.valAllocated = l.valAllocated) (hu : m.valUsed = l.valUsed + 1)
    (hv : m.vcur = l.valUsed) :
    ∃ v a k, grow env keep m =
        .ok { m with val := v, valAllocated := a, vcur := l.valUsed + 1, allocs := k } ∧
      Appended c l v a := by
  have hlen : m.val.length = l.valAllocated := by rw [hl, List.length_set, hr.cells]
  have hlt : l.valUsed < l.val.length := by rw [hr.cells]; exact hr.free
  have htext : m.val.take (l.valUsed + 1) = l.val.take l.valUsed ++ [c] := by
    rw [hl, Cells.take_succ_set hlt]
  have hfree := hr.free
  rw [grow, hu, ha]
  by_cases hfull : l.valUsed + 1 = l.valAllocated
  · refine ⟨m.val ++ env.fresh env.params.growSize, l.valAllocated + env.params.growSize,
      m.allocs + 1, ?_, ?_, ?_, ?_⟩
    · rw [if_pos hfull, if_pos (h _)]
    · simp [hlen]
    · have := env.params.grow_pos
      omega
    · rw [Cells.take_append_of_le (by omega), htext]
  · refine ⟨m.val, l.valAllocated, m.allocs, ?_, hlen, by omega, htext⟩
    rw [if_neg hfull, hv, ← ha]

lemma store_ok {env : Env} (h : env.Succeeds) {l : Locals} (hr : Room l.toRegs)
    (hv : l.vcur = l.valUsed) (c : Byte) :
    ∃ v a k, store env c l =
        .ok { l with val := v, valAllocated := a, valUsed := l.valUsed + 1
                     vcur := l.valUsed + 1, allocs := k } ∧
      Appended c l v a := by
  have hlt : l.vcur < l.val.length := by rw [hv, hr.cells]; exact hr.free
  obtain ⟨v, a, k, hg, happ⟩ := grow_ok h true (c := c) hr
    (m := { l with val := l.val.set l.vcur c, valUsed := l.valUsed + 1 }) (by rw [hv]) rfl rfl hv
  refine ⟨v, a, k, ?_, happ⟩
  rw [store, writeCur_ok hlt]
  exact hg

lemma storeEsc_ok {env : Env} (h : env.Succeeds) {l : Locals} (hr : Room l.toRegs)
    (hv : l.vcur = l.valUsed) (c : Byte) :
    ∃ v a k, storeEsc env c l =
        .ok { l with val := v, valAllocated := a, valUsed := l.valUsed + 1
                     vcur := l.valUsed + 1, esc := c == backslash, allocs := k } ∧
      Appended c l v a := by
  have hlt : l.vcur < l.val.length := by rw [hv, hr.cells]; exact hr.free
  obtain ⟨v, a, k, hg, happ⟩ := grow_ok h true (c := c) hr
    (m := { l with val := l.val.set l.vcur c, esc := c == backslash, valUsed := l.valUsed + 1 })
    (by rw [hv]) rfl rfl hv
  refine ⟨v, a, k, ?_, happ⟩
  rw [storeEsc, writeCur_ok hlt]
  exact hg

/-- The head of a bare atom, which state 1 stores itself. -/
lemma head_ok {env : Env} (h : env.Succeeds) {l : Locals} (hr : Room l.toRegs)
    (hu : l.valUsed = 0) (c : Byte) :
    ∃ v a k,
      (writeCur c { l with vcur := 0 } >>= fun l =>
        grow env false { l with esc := c == backslash, valUsed := l.valUsed + 1 }) =
        .ok { l with val := v, valAllocated := a, valUsed := 1, vcur := 1
                     esc := c == backslash, allocs := k } ∧
      Appended c l v a := by
  have hlt : 0 < l.val.length := by rw [hr.cells]; have := hr.free; omega
  obtain ⟨v, a, k, hg, happ⟩ := grow_ok h false (c := c) hr
    (m := { l with vcur := 0, val := l.val.set 0 c, esc := c == backslash
                   valUsed := l.valUsed + 1 }) (by rw [hu]) rfl rfl hu.symm
  refine ⟨v, a, k, ?_, happ⟩
  rw [writeCur_ok (by exact hlt)]
  simpa [hu] using hg

/-- The callback a handler makes. -/
def heard (handler : Handlers → Bool) (e : Event) : Option Handlers → List Event
  | some h => if handler h then [e] else []
  | none => []

lemma fire_eq (handler : Handlers → Bool) (e : Event) (l : Locals) :
    fire handler e l = { l with events := l.events ++ heard handler e l.eventHandlers } := by
  unfold fire
  cases l.eventHandlers with
  | none => simp [heard]
  | some h =>
    by_cases hset : handler h = true
    · simp [heard, hset]
    · simp [heard, hset]

/-- The locals after the atom in the buffer was built and reported. -/
def emitted (env : Env) (aty : AtomT) (l : Locals) : Locals :=
  { l with elts := l.elts + 1, sx := [.value aty l.val l.valAllocated l.valUsed]
           val := env.fresh env.params.startSize, valAllocated := env.params.startSize
           valUsed := 0, vcur := 0, allocs := l.allocs + 1
           events := l.events ++ heard (·.characters)
             (.characters (l.val.take l.valUsed) l.valUsed aty) l.eventHandlers }

lemma emit_ok {env : Env} (h : env.Succeeds) (aty : AtomT) (l : Locals) :
    emit env aty l = .ok (emitted env aty l) := by
  simp only [emit, fire_eq, h _, if_true, emitted]

namespace EventEnv

open Sfsexp.EventEnv

lemma grow_ok {env : EventEnv} (h : env.Succeeds) {c : Byte} {l : Locals}
    (hr : Room l.toRegs) {m : Locals} (hl : m.val = l.val.set l.valUsed c)
    (ha : m.valAllocated = l.valAllocated) (hu : m.valUsed = l.valUsed + 1)
    (hv : m.vcur = l.valUsed) :
    ∃ v a k, env.grow m =
        .ok { m with val := v, valAllocated := a, vcur := l.valUsed + 1, allocs := k } ∧
      Appended c l v a := by
  have hlen : m.val.length = l.valAllocated := by rw [hl, List.length_set, hr.cells]
  have hlt : l.valUsed < l.val.length := by rw [hr.cells]; exact hr.free
  have htext : m.val.take (l.valUsed + 1) = l.val.take l.valUsed ++ [c] := by
    rw [hl, Cells.take_succ_set hlt]
  have hfree := hr.free
  rw [EventEnv.grow, hu, ha]
  by_cases hfull : l.valUsed + 1 = l.valAllocated
  · refine ⟨m.val ++ env.fresh eventGrowSize, l.valAllocated + eventGrowSize,
      m.allocs + 1, ?_, ?_, ?_, ?_⟩
    · rw [if_pos hfull, if_pos (h _)]
    · simp [hlen]
    · simp only [eventGrowSize]
      omega
    · rw [Cells.take_append_of_le (by omega), htext]
  · refine ⟨m.val, l.valAllocated, m.allocs, ?_, hlen, by omega, htext⟩
    rw [if_neg hfull, hv, ← ha]

lemma store_ok {env : EventEnv} (h : env.Succeeds) {l : Locals} (hr : Room l.toRegs)
    (hv : l.vcur = l.valUsed) (c : Byte) :
    ∃ v a k, env.store c l =
        .ok { l with val := v, valAllocated := a, valUsed := l.valUsed + 1
                     vcur := l.valUsed + 1, allocs := k } ∧
      Appended c l v a := by
  have hlt : l.vcur < l.val.length := by rw [hv, hr.cells]; exact hr.free
  obtain ⟨v, a, k, hg, happ⟩ := grow_ok h (c := c) hr
    (m := { l with val := l.val.set l.vcur c, valUsed := l.valUsed + 1 }) (by rw [hv]) rfl rfl hv
  refine ⟨v, a, k, ?_, happ⟩
  rw [EventEnv.store, writeCur_ok hlt]
  exact hg

lemma storeEsc_ok {env : EventEnv} (h : env.Succeeds) {l : Locals} (hr : Room l.toRegs)
    (hv : l.vcur = l.valUsed) (c : Byte) :
    ∃ v a k, env.storeEsc c l =
        .ok { l with val := v, valAllocated := a, valUsed := l.valUsed + 1
                     vcur := l.valUsed + 1, esc := c == backslash, allocs := k } ∧
      Appended c l v a := by
  have hlt : l.vcur < l.val.length := by rw [hv, hr.cells]; exact hr.free
  obtain ⟨v, a, k, hg, happ⟩ := grow_ok h (c := c) hr
    (m := { l with val := l.val.set l.vcur c, esc := c == backslash, valUsed := l.valUsed + 1 })
    (by rw [hv]) rfl rfl hv
  refine ⟨v, a, k, ?_, happ⟩
  rw [EventEnv.storeEsc, writeCur_ok hlt]
  exact hg

end EventEnv

end Sfsexp.Proofs
