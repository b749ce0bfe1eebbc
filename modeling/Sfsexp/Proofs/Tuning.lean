import Sfsexp.Model.Client
import Sfsexp.Proofs.NormalMode
import Sfsexp.Spec.Visible

/-!
# Two parsers with buffers of different sizes

Two runs of `cparse_sexp` on the same bytes whose buffers have different sizes, whose fresh memory
holds different bytes and whose stacks keep different reserves go through the same rounds: at every
loop head they differ at most in what is not visible.
-/

namespace Sfsexp.Proofs

open Sfsexp

/-- The locals differ in the unused cells of their atoms and in what was allocated so far. -/
structure Alike (l l' : Locals) : Prop where
  frame : l' = { l with val := l'.val, valAllocated := l'.valAllocated, stack := l'.stack
                        sx := l'.sx, allocs := l'.allocs }
  stack : l'.stack.visible = l.stack.visible
  sx : visibleAll l'.sx = visibleAll l.sx
  text : l'.val.take l.valUsed = l.val.take l.valUsed

/-- Two pieces of a round that end alike. -/
abbrev Both (R : Locals → Locals → Prop) : Exec Locals → Exec Locals → Prop :=
  Loop.Lockstep R fun s s' => s.visible = s'.visible

lemma Both.bind {R Q : Locals → Locals → Prop} {x y : Exec Locals} {f g : Locals → Exec Locals}
    (hxy : Both R x y) (hfg : ∀ l l', R l l' → Both Q (f l) (g l')) :
    Both Q (x >>= f) (y >>= g) := by
  cases x with
  | ok l =>
    cases y with
    | ok l' => exact hfg l l' hxy
    | error _ => exact hxy.elim
  | error _ =>
    cases y with
    | ok _ => exact hxy.elim
    | error _ => exact hxy

lemma Alike.cases {l l' : Locals} (h : Alike l l') : ∃ v a s x k,
    l' = { l with val := v, valAllocated := a, stack := s, sx := x, allocs := k } ∧
      s.visible = l.stack.visible ∧ visibleAll x = visibleAll l.sx ∧
      v.take l.valUsed = l.val.take l.valUsed :=
  ⟨_, _, _, _, _, h.frame, h.stack, h.sx, h.text⟩

lemma visible_eq_iff {l l' : Locals} : l.visible = l'.visible ↔ Alike l l' := by
  constructor
  · intro h
    have hframe := congrArg (fun m : Locals => { m with
      val := l'.val, valAllocated := l'.valAllocated, stack := l'.stack, sx := l'.sx
      allocs := l'.allocs }) h
    have htext : l.val.take l.valUsed = l'.val.take l'.valUsed := congrArg (·.val) h
    have hused : l.valUsed = l'.valUsed := congrArg (·.valUsed) h
    refine ⟨hframe.symm, (congrArg (·.stack) h).symm, (congrArg (·.sx) h).symm, ?_⟩
    rw [htext, hused]
  · intro h
    obtain ⟨v, a, s, x, k, rfl, hs, hx, hv⟩ := h.cases
    simp only [Locals.visible, Regs.visible, hs, hx, hv]

/-- The locals while the text of a token is accumulated, in buffers that have room. -/
structure Paired (l l' : Locals) : Prop where
  alike : Alike l l'
  room : Room l.toRegs
  room' : Room l'.toRegs
  cursor : l.vcur = l.valUsed

section Pieces

variable {env env' : Env} {l l' : Locals} {c : Byte}

lemma Paired.cursor' (h : Paired l l') : l'.vcur = l'.valUsed := by
  have hcur := h.cursor
  obtain ⟨v, a, s, x, k, rfl, -, -, -⟩ := h.alike.cases
  exact hcur

lemma both_store (h : env.Succeeds) (h' : env'.Succeeds) (hl : Paired l l') (c : Byte) :
    Both Paired (store env c l) (store env' c l') := by
  obtain ⟨v₁, a₁, k₁, hrun₁, happ₁⟩ := store_ok h hl.room hl.cursor c
  obtain ⟨v₂, a₂, k₂, hrun₂, happ₂⟩ := store_ok h' hl.room' hl.cursor' c
  obtain ⟨v, a, s, x, k, rfl, hs, hx, hv⟩ := hl.alike.cases
  rw [hrun₁, hrun₂]
  refine ⟨⟨rfl, hs, hx, ?_⟩, .of_appended happ₁ rfl rfl rfl, .of_appended happ₂ rfl rfl rfl, rfl⟩
  rw [happ₁.text, happ₂.text, hv]

lemma both_storeEsc (h : env.Succeeds) (h' : env'.Succeeds) (hl : Paired l l') (c : Byte) :
    Both Paired (storeEsc env c l) (storeEsc env' c l') := by
  obtain ⟨v₁, a₁, k₁, hrun₁, happ₁⟩ := storeEsc_ok h hl.room hl.cursor c
  obtain ⟨v₂, a₂, k₂, hrun₂, happ₂⟩ := storeEsc_ok h' hl.room' hl.cursor' c
  obtain ⟨v, a, s, x, k, rfl, hs, hx, hv⟩ := hl.alike.cases
  rw [hrun₁, hrun₂]
  refine ⟨⟨rfl, hs, hx, ?_⟩, .of_appended happ₁ rfl rfl rfl, .of_appended happ₂ rfl rfl rfl, rfl⟩
  rw [happ₁.text, happ₂.text, hv]

/-- The head of a bare atom. -/
lemma both_head (h : env.Succeeds) (h' : env'.Succeeds) (hl : Alike l l') (hr : Room l.toRegs)
    (hr' : Room l'.toRegs) (hu : l.valUsed = 0) (c : Byte) :
    Both Alike
      (writeCur c { l with vcur := 0 } >>= fun l =>
        grow env false { l with esc := c == backslash, valUsed := l.valUsed + 1 })
      (writeCur c { l' with vcur := 0 } >>= fun l =>
        grow env' false { l with esc := c == backslash, valUsed := l.valUsed + 1 }) := by
  obtain ⟨v, a, s, x, k, rfl, hs, hx, hv⟩ := hl.cases
  obtain ⟨v₁, a₁, k₁, hrun₁, happ₁⟩ := head_ok h hr hu c
  obtain ⟨v₂, a₂, k₂, hrun₂, happ₂⟩ := head_ok h' hr' hu c
  rw [hrun₁, hrun₂]
  refine ⟨rfl, hs, hx, ?_⟩
  have ht₁ := happ₁.text
  have ht₂ := happ₂.text
  simp only [hu, Nat.zero_add, List.take_zero, List.nil_append] at ht₁ ht₂
  exact ht₂.trans ht₁.symm

/-- Both step back over the backslash, or both leave their buffers. -/
lemma both_overwrite (hl : Paired l l') : Both Paired (overwrite c l) (overwrite c l') := by
  have hcur' := hl.cursor'
  obtain ⟨halike, hr, hr', hcur⟩ := hl
  obtain ⟨v, a, s, x, k, rfl, hs, hx, hv⟩ := halike.cases
  rcases Nat.eq_zero_or_pos l.valUsed with hn | hpos
  · rw [overwrite_start (hcur.trans hn), overwrite_start (hcur'.trans hn)]
    exact rfl
  · obtain ⟨n, hn⟩ := Nat.exists_eq_add_of_lt hpos
    rw [Nat.zero_add] at hn
    have hfree := hr.free
    have hfree' := hr'.free
    have hlt : n < l.val.length := by
      rw [hr.cells]
      omega
    have hlt' : n < v.length := by
      have hcells := hr'.cells
      dsimp only at hfree' hcells
      omega
    rw [overwrite_ok (hcur.trans hn) hlt, overwrite_ok (hcur'.trans hn) hlt']
    refine ⟨⟨rfl, hs, hx, ?_⟩, ⟨by simpa using hr.cells, hfree⟩, ⟨by simpa using hr'.cells, hfree'⟩,
      hcur⟩
    dsimp only
    rw [hn] at hv ⊢
    rw [Cells.take_succ_set_last hlt, Cells.take_succ_set_last hlt', hv]

lemma both_need (h : env.Succeeds) (h' : env'.Succeeds) (hl : Alike l l') :
    Both Alike (need env l) (need env' l') := by
  obtain ⟨v, a, s, x, k, rfl, hs, hx, hv⟩ := hl.cases
  rw [need_ok h, need_ok h']
  exact ⟨rfl, hs, hx, hv⟩

lemma visibleAll_atom (aty : AtomT) (v : List Byte) (a u : Nat) :
    visibleAll [.value aty v a u] = [.value aty (v.take u) u u] := rfl

/-- The atoms agree, and both buffers are new. -/
lemma both_emit (h : env.Succeeds) (h' : env'.Succeeds) (aty : AtomT) (hl : Alike l l') :
    Both Alike (emit env aty l) (emit env' aty l') := by
  obtain ⟨v, a, s, x, k, rfl, hs, hx, hv⟩ := hl.cases
  rw [emit_ok h, emit_ok h']
  refine ⟨?_, hs, ?_, by simp [emitted]⟩
  · simp only [emitted, hv]
  · simp only [emitted, visibleAll_atom, hv]

/-- The terminating NUL goes behind the used part. -/
lemma writeCur_paired (hl : Paired l l') (c : Byte) : ∃ v v',
    writeCur c l = .ok { l with val := v } ∧ writeCur c l' = .ok { l' with val := v' } ∧
      v'.take l.valUsed = v.take l.valUsed ∧ v'.take (l.valUsed + 1) = v.take (l.valUsed + 1) := by
  have hcur' := hl.cursor'
  obtain ⟨halike, hr, hr', hcur⟩ := hl
  have hlt : l.valUsed < l.val.length := by
    rw [hr.cells]
    exact hr.free
  have hlt' : l'.valUsed < l'.val.length := by
    rw [hr'.cells]
    exact hr'.free
  refine ⟨_, _, writeCur_ok (by rwa [hcur]), writeCur_ok (by rwa [hcur']), ?_, ?_⟩
  · obtain ⟨v, a, s, x, k, rfl, hs, hx, hv⟩ := halike.cases
    dsimp only at hlt hlt' ⊢
    rw [hcur, List.take_set_of_le (Nat.le_refl _), List.take_set_of_le (Nat.le_refl _), hv]
  · obtain ⟨v, a, s, x, k, rfl, hs, hx, hv⟩ := halike.cases
    dsimp only at hlt hlt' ⊢
    rw [hcur, Cells.take_succ_set hlt, Cells.take_succ_set hlt', hv]

lemma fire_alike (handler : Handlers → Bool) (e : Event) (hl : Alike l l') :
    Alike (fire handler e l) (fire handler e l') := by
  obtain ⟨v, a, s, x, k, rfl, hs, hx, hv⟩ := hl.cases
  rw [fire_eq, fire_eq]
  exact ⟨rfl, hs, hx, hv⟩

/-- An atom is put on both stacks, or both are empty. -/
lemma link_alike (hl : Alike l l') : Option.Rel Alike (link l) (link l') := by
  have hstack := hl.stack
  obtain ⟨v, a, s, x, k, rfl, -, hx, hv⟩ := hl.cases
  obtain ⟨levels, spare, height⟩ := s
  simp only [Faststack.visible, Faststack.mk.injEq, true_and] at hstack
  obtain ⟨hlevels, rfl⟩ := hstack
  cases hL : l.stack.levels with
  | nil =>
    rw [hL, List.map_nil, List.map_eq_nil_iff] at hlevels
    subst hlevels
    simp only [link, hL]
    exact .none
  | cons top rest =>
    rw [hL, List.map_cons, List.map_eq_cons_iff] at hlevels
    obtain ⟨top', rest', rfl, htop, hrest⟩ := hlevels
    simp only [link, hL]
    refine .some ⟨rfl, ?_, hx, hv⟩
    simp [Faststack.visible, htop, hrest, hx]

lemma both_link (hl : Alike l l') (onReturn : Locals → Stop) (onStay : Locals → Locals)
    (hret : (onReturn l).visible = (onReturn l').visible)
    (hstay : ∀ m m', Alike m m' → Alike (onStay m) (onStay m')) :
    Both Alike
      (match link l with
        | none => .error (onReturn l)
        | some l => .ok (onStay l))
      (match link l' with
        | none => .error (onReturn l')
        | some l => .ok (onStay l)) := by
  have hlink := link_alike hl
  generalize link l = m, link l' = m' at hlink ⊢
  cases hlink with
  | none => exact hret
  | some hm => exact hstay _ _ hm

lemma both_push (h : env.Succeeds) (h' : env'.Succeeds) (hl : Alike l l') {data data' : List Sexp}
    (hdata : visibleAll data' = visibleAll data) :
    Alike (push env data l) (push env' data' l') := by
  have hlevels := congrArg (·.levels) hl.stack
  have hheight := congrArg (·.height) hl.stack
  obtain ⟨v, a, s, x, k, rfl, hs, hx, hv⟩ := hl.cases
  simp only [Faststack.visible] at hlevels hheight
  rw [push_ok h, push_ok h']
  refine ⟨rfl, ?_, hx, hv⟩
  simp [Faststack.visible, hlevels, hheight, hdata]

lemma both_attachList (h : env.Succeeds) (h' : env'.Succeeds) (hl : Alike l l') :
    Both Alike (attachList env l) (attachList env' l') := by
  have hheight : l'.stack.height = l.stack.height := congrArg (·.height) hl.stack
  rw [attachList, attachList, hheight]
  split_ifs
  · refine (both_need h h' hl).bind ?_
    intro m m' hm
    exact both_push h h' hm hm.sx
  · have hlink := link_alike hl
    generalize link l = m, link l' = m' at hlink ⊢
    cases hlink with
    | none => exact rfl
    | some hm => exact hm

lemma both_state2 (h : env.Succeeds) (h' : env'.Succeeds) (hl : Alike l l') :
    Both Alike (state2 env l) (state2 env' l') := by
  obtain ⟨v, a, s, x, k, rfl, hs, hx, hv⟩ := hl.cases
  rw [state2, state2]
  refine (both_need h h' ⟨rfl, hs, hx, hv⟩).bind ?_
  intro m m' hm
  obtain ⟨v, a, s, x, k, rfl, hs, hx, hv⟩ := hm.cases
  have hlist : Alike { m with elts := m.elts + 1, sx := [.list []] }
      { m with elts := m.elts + 1, sx := [.list []], val := v, valAllocated := a, stack := s
               allocs := k } := ⟨rfl, hs, rfl, hv⟩
  refine (both_attachList h h' hlist).bind ?_
  intro m m' hm
  refine (both_need h h' hm).bind ?_
  intro m m' hm
  have hpush := @both_push env env' m _ h h' hm [] [] rfl
  obtain ⟨v, a, s, x, k, he, hs, hx, hv⟩ := hpush.cases
  exact ⟨by rw [he], hpush.stack, hpush.sx, hpush.text⟩

/-- The children of the last element are set without a look at the atoms. -/
lemma setLast_visible (top sx : List Sexp) :
    (setLast top sx).map visibleAll = setLast (visibleAll top) (visibleAll sx) := by
  induction top with
  | nil => rfl
  | cons y top ih =>
    cases top with
    | nil => cases y <;> rfl
    | cons z top =>
      have hleft : setLast (y :: z :: top) sx = (setLast (z :: top) sx).map (y :: ·) := by
        cases y <;> rfl
      have hright : setLast (visibleAll (y :: z :: top)) (visibleAll sx) =
          (setLast (visibleAll (z :: top)) (visibleAll sx)).map (y.visible :: ·) := by
        cases y <;> rfl
      rw [hleft, hright, ← ih, Option.map_map, Option.map_map]
      rfl

lemma popAll_visible {levels levels' : List (List Sexp)}
    (h : levels'.map visibleAll = levels.map visibleAll) (spare spare' height : Nat)
    {sx sx' : List Sexp} (hsx : visibleAll sx' = visibleAll sx) :
    Option.Rel (fun p q => q.1.visible = p.1.visible ∧ visibleAll q.2 = visibleAll p.2)
      (popAll levels spare height sx) (popAll levels' spare' height sx') := by
  induction levels generalizing levels' spare spare' height sx sx' with
  | nil =>
    rw [List.map_nil, List.map_eq_nil_iff] at h
    subst h
    exact .some ⟨rfl, hsx⟩
  | cons data rest ih =>
    rw [List.map_cons, List.map_eq_cons_iff] at h
    obtain ⟨data', rest', rfl, hdata, hrest⟩ := h
    cases height with
    | zero => exact .none
    | succ height => exact ih hrest (spare + 1) (spare' + 1) height hdata

lemma both_returnTree (hl : Alike l l') : (returnTree l).visible = (returnTree l').visible := by
  have hlevels := congrArg (·.levels) hl.stack
  have hheight : l'.stack.height = l.stack.height := congrArg (·.height) hl.stack
  have hpop := popAll_visible hlevels l.stack.spare l'.stack.spare l.stack.height hl.sx
  rw [returnTree, returnTree, hheight]
  generalize popAll l.stack.levels l.stack.spare l.stack.height l.sx = p,
    popAll l'.stack.levels l'.stack.spare l.stack.height l'.sx = q at hpop ⊢
  cases hpop with
  | none => rfl
  | some hpq =>
    obtain ⟨hst, hx⟩ := hpq
    obtain ⟨v, a, s, x, k, rfl, -, -, hv⟩ := hl.cases
    simp [Locals.save, Stop.visible, Return.visible, Pcont.visible, Regs.visible, hst, hx, hv]

/-- Pops the top level and makes its chain the children of the last element below it. -/
lemma both_closeLevel (hl : Alike l l') : Both Alike (closeLevel l) (closeLevel l') := by
  have hstack := hl.stack
  obtain ⟨v, a, s, x, k, rfl, -, hx, hv⟩ := hl.cases
  obtain ⟨levels', spare', height'⟩ := s
  simp only [Faststack.visible, Faststack.mk.injEq, true_and] at hstack
  obtain ⟨hlevels, rfl⟩ := hstack
  cases hL : l.stack.levels with
  | nil =>
    rw [hL, List.map_nil, List.map_eq_nil_iff] at hlevels
    subst hlevels
    simp only [closeLevel, Faststack.pop, hL]
    exact rfl
  | cons data rest =>
    rw [hL, List.map_cons, List.map_eq_cons_iff] at hlevels
    obtain ⟨data', rest', rfl, hdata, hrest⟩ := hlevels
    cases hh : l.stack.height with
    | zero =>
      simp only [closeLevel, Faststack.pop, hL, hh]
      exact rfl
    | succ height =>
      cases rest with
      | nil =>
        rw [List.map_nil, List.map_eq_nil_iff] at hrest
        subst hrest
        simp only [closeLevel, Faststack.pop, hL, hh]
        simp [Both, Loop.Lockstep, Locals.save, Stop.visible, Return.visible, Pcont.visible,
          Regs.visible, Faststack.visible, hv]
      | cons top below =>
        rw [List.map_cons, List.map_eq_cons_iff] at hrest
        obtain ⟨top', below', rfl, htop, hbelow⟩ := hrest
        have hset := setLast_visible top data
        have hset' := setLast_visible top' data'
        rw [htop, hdata, ← hset] at hset'
        simp only [closeLevel, Faststack.pop, hL, hh]
        generalize setLast top data = p, setLast top' data' = q at hset' ⊢
        cases p with
        | none =>
          cases q with
          | none => exact rfl
          | some q => cases hset'
        | some p =>
          cases q with
          | none => cases hset'
          | some q =>
            refine ⟨rfl, ?_, hdata, hv⟩
            simp [Faststack.visible, hbelow, Option.some.inj hset']

end Pieces

section States

variable {env env' : Env} {l l' : Locals} {c : Byte}

lemma both_state1 (h : env.Succeeds) (h' : env'.Succeeds) (hl : Alike l l') (hi : BufferInv l.toRegs)
    (hi' : BufferInv l'.toRegs) (hs : l.state = .s1) :
    Both Alike (state1 env c l) (state1 env' c l') := by
  have hu : l.valUsed = 0 := by simpa [TokenInv, hs] using hi.token
  have hhead := both_head h h' hl hi.room hi'.room hu c
  obtain ⟨v, a, s, x, k, rfl, hs, hx, hv⟩ := hl.cases
  rw [state1, state1]
  split_ifs
  · exact ⟨rfl, hs, hx, hv⟩
  · exact ⟨rfl, hs, hx, hv⟩
  · exact fire_alike _ _ ⟨rfl, hs, hx, hv⟩
  · exact ⟨rfl, hs, hx, hv⟩
  · exact ⟨rfl, hs, hx, hv⟩
  · exact ⟨rfl, hs, hx, hv⟩
  · rw [← bind_assoc, ← bind_assoc]
    refine hhead.bind ?_
    intro m m' hm
    obtain ⟨v, a, s, x, k, rfl, hs, hx, hv⟩ := hm.cases
    exact ⟨rfl, hs, hx, hv⟩

lemma both_state3 (hl : Alike l l') : Both Alike (state3 l) (state3 l') := by
  obtain ⟨v, a, s, x, k, rfl, hs, hx, hv⟩ := hl.cases
  rw [state3, state3]
  dsimp only
  split_ifs
  · simp [Both, Loop.Lockstep, Locals.save, Stop.visible, Return.visible, Pcont.visible,
      Regs.visible, hs, hv]
  · refine (both_closeLevel ⟨rfl, hs, hx, hv⟩).bind ?_
    intro m m' hm
    obtain ⟨v, a, s, x, k, rfl, hs, hx, hv⟩ := hm.cases
    have hfire := fire_alike (·.endSexpr) .endSexpr
      (⟨rfl, hs, hx, hv⟩ : Alike { m with state := .s1 }
        { m with state := .s1, val := v, valAllocated := a, stack := s, sx := x, allocs := k })
    have hdepth : (fire (·.endSexpr) .endSexpr { m with
        state := .s1, val := v, valAllocated := a, stack := s, sx := x, allocs := k }).depth =
        (fire (·.endSexpr) .endSexpr { m with state := .s1 }).depth := by simp
    dsimp only at hdepth ⊢
    rw [hdepth]
    split_ifs
    · exact both_returnTree hfire
    · exact hfire

/-- The NUL behind the text of an atom. -/
lemma both_terminate (hl : Paired l l') :
    Both (fun m m' => Alike m m' ∧ Alike { m with valUsed := m.valUsed + 1 }
      { m' with valUsed := m'.valUsed + 1 }) (writeCur nul l) (writeCur nul l') := by
  obtain ⟨w, w', hw, hw', htake, htake'⟩ := writeCur_paired hl nul
  rw [hw, hw']
  obtain ⟨v, a, s, x, k, rfl, hs, hx, -⟩ := hl.alike.cases
  exact ⟨⟨rfl, hs, hx, htake⟩, rfl, hs, hx, htake'⟩

/-- The return with the atom of a token. -/
lemma return_alike (hl : Alike l l') (next : Bool) :
    ({ l with t := l.t + next.toNat, squoted := false, state := .s1, esc := false }.save .ok
      l.sx).visible =
    ({ l' with t := l'.t + next.toNat, squoted := false, state := .s1, esc := false }.save .ok
      l'.sx).visible := by
  obtain ⟨v, a, s, x, k, rfl, hs, hx, hv⟩ := hl.cases
  simp [Locals.save, Stop.visible, Return.visible, Pcont.visible, Regs.visible, hs, hx, hv]

lemma alike_afterBare (hl : Alike l l') : Alike (afterBare c l) (afterBare c l') := by
  obtain ⟨v, a, s, x, k, rfl, hs, hx, hv⟩ := hl.cases
  rw [afterBare, afterBare]
  split_ifs <;> exact ⟨rfl, hs, hx, hv⟩

lemma both_endBare (h : env.Succeeds) (h' : env'.Succeeds) (hl : Paired l l') :
    Both Alike (endBare env c l) (endBare env' c l') := by
  rw [endBare, endBare]
  refine (both_terminate hl).bind ?_
  rintro m m' ⟨-, hm⟩
  refine (both_need h h' hm).bind ?_
  intro m m' hm
  have hsq : m'.squoted = m.squoted := congrArg (·.squoted) hm.frame
  rw [hsq]
  refine (both_emit h h' _ hm).bind ?_
  intro m m' hm
  exact both_link hm
    (fun l => { l with squoted := false, state := .s1, esc := false }.save .ok l.sx) (afterBare c)
    (return_alike hm false) fun _ _ hm => alike_afterBare hm

lemma both_state4 (h : env.Succeeds) (h' : env'.Succeeds) (hl : Paired l l') :
    Both Alike (state4 env c l) (state4 env' c l') := by
  have hesc : l'.esc = l.esc := congrArg (·.esc) hl.alike.frame
  rw [state4, state4, hesc]
  split_ifs
  · have hover := @both_overwrite l l' c hl
    rw [← bind_pure (overwrite c l), ← bind_pure (overwrite c l')]
    exact hover.bind fun _ _ hm => hm.alike
  · refine (both_storeEsc h h' hl c).bind ?_
    intro m m' hm
    obtain ⟨v, a, s, x, k, rfl, hs, hx, hv⟩ := hm.alike.cases
    exact ⟨rfl, hs, hx, hv⟩
  · exact both_endBare h h' hl

lemma both_closingQuote (h : env.Succeeds) (h' : env'.Succeeds) (hl : Paired l l') :
    Both Paired (closingQuote env l) (closingQuote env' l') := by
  have hsq : l'.squoted = l.squoted := congrArg (·.squoted) hl.alike.frame
  rw [closingQuote, closingQuote, hsq]
  split_ifs
  · exact both_store h h' hl dquote
  · exact hl

lemma both_endQuoted (h : env.Succeeds) (h' : env'.Succeeds) (hl : Paired l l') :
    Both Alike (endQuoted env l) (endQuoted env' l') := by
  rw [endQuoted, endQuoted]
  refine (both_closingQuote h h' hl).bind ?_
  intro m m' hm
  refine (both_terminate hm).bind ?_
  rintro m m' ⟨-, hm⟩
  refine (both_need h h' hm).bind ?_
  intro m m' hm
  obtain ⟨v, a, s, x, k, rfl, hs, hx, hv⟩ := hm.cases
  refine (both_emit h h' _ ⟨rfl, hs, hx, hv⟩).bind ?_
  intro m m' hm
  refine both_link hm
    (fun l => { l with t := l.t + 1, squoted := false, esc := false, state := .s1 }.save .ok l.sx)
    (fun l => { l with t := l.t + 1 }) (return_alike hm true) ?_
  intro m m' hm
  obtain ⟨v, a, s, x, k, rfl, hs, hx, hv⟩ := hm.cases
  exact ⟨rfl, hs, hx, hv⟩

lemma both_state5Rest (h : env.Succeeds) (h' : env'.Succeeds) (hl : Paired l l') :
    Both Alike (state5Rest env c l) (state5Rest env' c l') := by
  rw [state5Rest, state5Rest]
  split_ifs
  · have hr' := hl.room'
    obtain ⟨⟨v, a, s, x, k, rfl, hs, hx, hv⟩, hr, hcur⟩ :=
      And.intro hl.alike.cases (And.intro hl.room hl.cursor)
    exact both_endQuoted h h'
      ⟨⟨rfl, hs, hx, hv⟩, hr.same ⟨rfl, rfl, rfl⟩, hr'.same ⟨rfl, rfl, rfl⟩, hcur⟩
  · refine (both_store h h' hl c).bind ?_
    intro m m' hm
    obtain ⟨v, a, s, x, k, rfl, hs, hx, hv⟩ := hm.alike.cases
    exact ⟨rfl, hs, hx, hv⟩

lemma both_state5 (hbuf : env'.buf = env.buf) (h : env.Succeeds) (h' : env'.Succeeds)
    (hl : Paired l l') : Both Alike (state5 env c l) (state5 env' c l') := by
  have hesc : l'.esc = l.esc := congrArg (·.esc) hl.alike.frame
  rw [state5, state5, hesc]
  split_ifs
  · refine (both_overwrite hl).bind ?_
    intro m m' hm
    have ht : m'.t = m.t := congrArg (·.t) hm.alike.frame
    rw [Env.read, Env.read, hbuf, ht]
    cases env.buf[m.t]? with
    | none => exact rfl
    | some c => exact both_state5Rest h h' hm
  · exact both_state5Rest h h' hl

/-- The same change of fields that the buffer does not consist of. -/
lemma Paired.map (hl : Paired l l') (f : Locals → Locals)
    (hf : ∀ m m', Alike m m' → Alike (f m) (f m'))
    (hbuf : ∀ m, SameBuffer m.toRegs (f m).toRegs ∧ (f m).vcur = m.vcur) :
    Paired (f l) (f l') := by
  obtain ⟨halike, hr, hr', hcur⟩ := hl
  exact ⟨hf _ _ halike, hr.same (hbuf l).1, hr'.same (hbuf l').1,
    (hbuf l).2.trans (hcur.trans (hbuf l).1.2.2.symm)⟩

lemma alike_countParen (hl : Alike l l') : Alike (countParen c l) (countParen c l') := by
  obtain ⟨v, a, s, x, k, rfl, hs, hx, hv⟩ := hl.cases
  rw [countParen, countParen]
  dsimp only
  split_ifs <;> exact ⟨rfl, hs, hx, hv⟩

/-- The first byte of a token behind an apostrophe. -/
lemma both_state7 (h : env.Succeeds) (h' : env'.Succeeds) (hl : Alike l l') (hr : Room l.toRegs)
    (hr' : Room l'.toRegs) (hu : l.valUsed = 0) :
    Both Alike (state7 env c l) (state7 env' c l') := by
  obtain ⟨v, a, s, x, k, rfl, hs, hx, hv⟩ := hl.cases
  rw [state7, state7]
  split_ifs
  · have hpair : Paired { l with state := .s5, vcur := 0, t := l.t + 1 }
        { l with state := .s5, vcur := 0, t := l.t + 1, val := v, valAllocated := a, stack := s
                 sx := x, allocs := k } :=
      ⟨⟨rfl, hs, hx, hv⟩, hr.same ⟨rfl, rfl, rfl⟩, hr'.same ⟨rfl, rfl, rfl⟩, hu.symm⟩
    refine (both_store h h' hpair dquote).bind ?_
    intro m m' hm
    obtain ⟨v, a, s, x, k, rfl, hs, hx, hv⟩ := hm.alike.cases
    exact ⟨rfl, hs, hx, hv⟩
  · exact ⟨rfl, hs, hx, hv⟩
  · exact ⟨rfl, hs, hx, hv⟩

lemma both_endQuotedList (h : env.Succeeds) (h' : env'.Succeeds) (hl : Paired l l') :
    Both Alike (endQuotedList env l) (endQuotedList env' l') := by
  rw [endQuotedList, endQuotedList]
  refine (both_terminate hl).bind ?_
  rintro m m' ⟨hm, -⟩
  refine (both_need h h' hm).bind ?_
  intro m m' hm
  refine (both_emit h h' _ hm).bind ?_
  intro m m' hm
  exact both_link hm
    (fun l => { l with squoted := false, esc := false, state := .s1 }.save .ok l.sx) id
    (return_alike hm false) fun _ _ hm => hm

lemma both_state9 (h : env.Succeeds) (h' : env'.Succeeds) (hl : Paired l l') :
    Both Alike (state9 env l) (state9 env' l') := by
  have hq : l'.qdepth = l.qdepth := congrArg (·.qdepth) hl.alike.frame
  rw [state9, state9]
  by_cases hzero : l.qdepth = 0
  · rw [if_pos hzero, if_pos (hq.trans hzero)]
    refine both_endQuotedList h h' (hl.map (fun l => { l with state := .s1 }) ?_ ?_)
    · intro m m' hm
      obtain ⟨v, a, s, x, k, rfl, hs, hx, hv⟩ := hm.cases
      exact ⟨rfl, hs, hx, hv⟩
    · intro m
      exact ⟨⟨rfl, rfl, rfl⟩, rfl⟩
  · rw [if_neg hzero, if_neg (by rwa [hq])]
    obtain ⟨v, a, s, x, k, rfl, hs, hx, hv⟩ := hl.alike.cases
    exact ⟨rfl, hs, hx, hv⟩

lemma both_state8 (h : env.Succeeds) (h' : env'.Succeeds) (hl : Paired l l') :
    Both Alike (state8 env c l) (state8 env' c l') := by
  have hcount : Paired (countParen c l) (countParen c l') := by
    refine hl.map (countParen c) (fun _ _ hm => alike_countParen hm) ?_
    intro m
    obtain ⟨hb, hcur, -⟩ := @countParen_frame m c
    exact ⟨hb, hcur⟩
  rw [state8, state8]
  refine (both_storeEsc h h' hcount c).bind ?_
  intro m m' hm
  have hnext : Paired { m with t := m.t + 1 } { m' with t := m'.t + 1 } := by
    refine hm.map (fun m => { m with t := m.t + 1 }) ?_ ?_
    · intro m m' hm
      obtain ⟨v, a, s, x, k, rfl, hs, hx, hv⟩ := hm.cases
      exact ⟨rfl, hs, hx, hv⟩
    · intro m
      exact ⟨⟨rfl, rfl, rfl⟩, rfl⟩
  have hstate : m'.state = m.state := congrArg (·.state) hm.alike.frame
  dsimp only
  rw [hstate]
  split_ifs
  · exact both_state9 h h' hnext
  · exact hnext.alike

lemma both_state10 (h : env.Succeeds) (h' : env'.Succeeds) (hl : Paired l l') :
    Both Alike (state10 env c l) (state10 env' c l') := by
  have hesc : l'.esc = l.esc := congrArg (·.esc) hl.alike.frame
  have hentry : Paired (if c = dquote ∧ l.esc = false then { l with state := .s8 } else l)
      (if c = dquote ∧ l'.esc = false then { l' with state := .s8 } else l') := by
    by_cases hclose : c = dquote ∧ l.esc = false
    · rw [if_pos hclose, if_pos (by rwa [hesc])]
      refine hl.map (fun l => { l with state := .s8 }) ?_ ?_
      · intro m m' hm
        obtain ⟨v, a, s, x, k, rfl, hs, hx, hv⟩ := hm.cases
        exact ⟨rfl, hs, hx, hv⟩
      · intro m
        exact ⟨⟨rfl, rfl, rfl⟩, rfl⟩
    · rw [if_neg hclose, if_neg (by rwa [hesc])]
      exact hl
  rw [state10, state10]
  refine (both_storeEsc h h' hentry c).bind ?_
  intro m m' hm
  obtain ⟨v, a, s, x, k, rfl, hs, hx, hv⟩ := hm.alike.cases
  exact ⟨rfl, hs, hx, hv⟩

lemma both_finish (hbuf : env'.buf = env.buf) (hlen : env'.len = env.len) (hl : Alike l l') :
    (finish env l).visible = (finish env' l').visible := by
  have hd : l'.depth = l.depth := congrArg (·.depth) hl.frame
  have he : l'.elts = l.elts := congrArg (·.elts) hl.frame
  have ht : l'.t = l.t := congrArg (·.t) hl.frame
  rw [finish, finish, hd, he, ht, hbuf, hlen]
  split_ifs
  · exact both_returnTree hl
  · cases env.buf[l.t]? with
    | none => rfl
    | some c =>
      obtain ⟨v, a, s, x, k, rfl, hs, hx, hv⟩ := hl.cases
      simp [Stop.visible, Return.visible, Pcont.visible, Regs.visible, hs, hv]

/-- Locals in mode `PARSER_NORMAL` that differ in nothing visible. -/
structure Twins (l l' : Locals) : Prop where
  alike : Alike l l'
  left : NormalHead l
  right : NormalHead l'

lemma Twins.paired (hl : Twins l l') (hs : accumulates l.state = true) : Paired l l' :=
  ⟨hl.alike, hl.left.normal.buffer.room, hl.right.normal.buffer.room,
    (hl.left.normal.buffer.cursor hs).1⟩

lemma both_switch (hbuf : env'.buf = env.buf) (h : env.Succeeds) (h' : env'.Succeeds)
    (hl : Twins l l') : Both Alike (switch env c l) (switch env' c l') := by
  have hstate : l'.state = l.state := congrArg (·.state) hl.alike.frame
  have htoken := hl.left.normal.buffer.token
  have htextual := hl.left.normal.textual
  rw [switch, switch, hstate]
  cases hs : l.state with
  | s1 => exact both_state1 h h' hl.alike hl.left.normal.buffer hl.right.normal.buffer hs
  | s2 => exact both_state2 h h' hl.alike
  | s3 => exact both_state3 hl.alike
  | s4 => exact both_state4 h h' (hl.paired (by rw [hs]; rfl))
  | s5 => exact both_state5 hbuf h h' (hl.paired (by rw [hs]; rfl))
  | s6 =>
    obtain ⟨v, a, s, x, k, rfl, hs, hx, hv⟩ := hl.alike.cases
    exact ⟨rfl, hs, hx, hv⟩
  | s7 =>
    have hu : l.valUsed = 0 := by simpa [TokenInv, hs] using htoken
    exact both_state7 h h' hl.alike hl.left.normal.buffer.room hl.right.normal.buffer.room hu
  | s8 => exact both_state8 h h' (hl.paired (by rw [hs]; rfl))
  | s9 => simp [TokenInv, hs] at htoken
  | s10 => exact both_state10 h h' (hl.paired (by rw [hs]; rfl))
  | s11 =>
    obtain ⟨v, a, s, x, k, rfl, hs, hx, hv⟩ := hl.alike.cases
    exact ⟨rfl, hs, hx, hv⟩
  | s12 | s13 | s14 | s15 | unknown => simp [hs, textual] at htextual

/-- One round of both runs. -/
theorem both_cparseHead (hbuf : env'.buf = env.buf) (hlen : env'.len = env.len) (h : env.Succeeds)
    (h' : env'.Succeeds) (hl : Twins l l') : Both Alike (cparseHead env l) (cparseHead env' l') := by
  have hstate : l'.state = l.state := congrArg (·.state) hl.alike.frame
  have ht : l'.t = l.t := congrArg (·.t) hl.alike.frame
  have h15 : l.state ≠ .s15 := by
    intro hs
    have htextual := hl.left.normal.textual
    simp [hs, textual] at htextual
  rw [cparseHead, cparseHead, if_neg h15, if_neg (by rwa [hstate]), Env.read, Env.read, hbuf, ht,
    hlen]
  cases env.buf[l.t]? with
  | none => exact rfl
  | some c =>
    simp only [ok_bind]
    split_ifs
    · exact both_finish hbuf hlen hl.alike
    · exact both_switch hbuf h h' hl

end States

section Calls

variable {env env' : Env}

/-- Continuations in mode `PARSER_NORMAL` that differ in nothing visible. -/
structure TwinConts (cc cc' : Pcont) : Prop where
  visible : cc.visible = cc'.visible
  left : Normal cc.toRegs
  right : Normal cc'.toRegs

def TwinStops : Stop → Stop → Prop
  | .ret r, .ret r' => r.visible = r'.visible ∧ TwinConts r.cc r'.cc
  | .fault f, .fault f' => f = f'
  | _, _ => False

lemma twinStops_of_visible {stop stop' : Stop} (h : stop.visible = stop'.visible)
    (hleft : ∀ r, stop = .ret r → Normal r.cc.toRegs)
    (hright : ∀ r, stop' = .ret r → Normal r.cc.toRegs) : TwinStops stop stop' := by
  cases stop with
  | ret r =>
    cases stop' with
    | ret r' =>
      have hvisible : r.visible = r'.visible := Stop.ret.inj h
      exact ⟨hvisible, congrArg (·.cc) hvisible, hleft r rfl, hright r' rfl⟩
    | fault f => cases h
  | fault f =>
    cases stop' with
    | ret r => cases h
    | fault f' => exact Stop.fault.inj h

lemma twins_step (hbuf : env'.buf = env.buf) (hlen : env'.len = env.len) (h : env.Succeeds)
    (h' : env'.Succeeds) (l l' : Locals) (hl : Twins l l') :
    Loop.Lockstep Twins TwinStops (cparseHead env l) (cparseHead env' l') := by
  have hboth := both_cparseHead hbuf hlen h h' hl
  have hleft := normal_cparseHead h hl.left
  have hright := normal_cparseHead h' hl.right
  generalize cparseHead env l = x, cparseHead env' l' = y at hboth hleft hright ⊢
  cases x with
  | ok m =>
    cases y with
    | ok m' => exact ⟨hboth, hleft, hright⟩
    | error _ => exact hboth.elim
  | error stop =>
    cases y with
    | ok _ => exact hboth.elim
    | error stop' => exact twinStops_of_visible hboth hleft.of_ret hright.of_ret

lemma TwinConts.enter {cc cc' : Pcont} (h : TwinConts cc cc') (n n' : Nat) :
    Twins (cc.enter n) (cc'.enter n') := by
  refine ⟨visible_eq_iff.mp ?_, h.left.enter n, h.right.enter n'⟩
  have hregs : cc.toRegs.visible = cc'.toRegs.visible := congrArg (·.toRegs) h.visible
  have hpos : cc.lastPos = cc'.lastPos := congrArg (·.lastPos) h.visible
  simp only [Locals.visible, Pcont.enter, hregs, hpos]

lemma twinConts_new (g g' : Setup) : TwinConts (Pcont.new g) (Pcont.new g') := by
  refine ⟨?_, normal_new g, normal_new g'⟩
  simp [Pcont.visible, Regs.visible, Pcont.new]

def TwinResults : Result → Result → Prop
  | .ret r, .ret r' => r.visible = r'.visible ∧ TwinConts r.cc r'.cc
  | .fault f, .fault f' => f = f'
  | .diverges, .diverges => True
  | _, _ => False

lemma TwinStops.results {stop stop' : Stop} (h : TwinStops stop stop') :
    TwinResults (Result.ofStop (some stop)) (Result.ofStop (some stop')) := by
  cases stop <;> cases stop' <;> exact h

lemma TwinResults.visible {x y : Result} (h : TwinResults x y) : x.visible = y.visible := by
  cases x <;> cases y <;> simp_all [TwinResults, Result.visible]

/-- Two calls that pass the same loop heads and end alike. -/
structure TwinTraces (k k' : CallTrace) : Prop where
  heads : k.heads.map Locals.visible = k'.heads.map Locals.visible
  outcome : TwinResults k.outcome k'.outcome

lemma twins_run (hbuf : env'.buf = env.buf) (hlen : env'.len = env.len) (h : env.Succeeds)
    (h' : env'.Succeeds) {l l' : Locals} (hl : Twins l l') :
    TwinTraces
      ⟨Loop.heads (cparseHead env) (fuel env) l,
        Result.ofStop (Loop.run (cparseHead env) (fuel env) l)⟩
      ⟨Loop.heads (cparseHead env') (fuel env') l',
        Result.ofStop (Loop.run (cparseHead env') (fuel env') l')⟩ := by
  have hstep := twins_step hbuf hlen h h'
  have hfuel : fuel env' = fuel env := by rw [fuel, fuel, hbuf]
  have hheads := Loop.heads_lockstep hstep hl (fuel env)
  have hrun := Loop.run_lockstep hstep hl (fuel env)
  rw [hfuel]
  refine ⟨?_, ?_⟩
  · dsimp only
    generalize Loop.heads (cparseHead env) (fuel env) l = xs,
      Loop.heads (cparseHead env') (fuel env) l' = ys at hheads ⊢
    induction hheads with
    | nil => rfl
    | cons hxy _ ih => rw [List.map_cons, List.map_cons, visible_eq_iff.mpr hxy.alike, ih]
  · dsimp only
    generalize Loop.run (cparseHead env) (fuel env) l = x,
      Loop.run (cparseHead env') (fuel env) l' = y at hrun ⊢
    cases hrun with
    | none => trivial
    | some hxy => exact hxy.results

/-- A call on either continuation, or on `NULL`. -/
lemma twins_call {g g' : Setup} (h : g.Succeeds) (h' : g'.Succeeds) {lc lc' : Option Pcont}
    (hlc : Option.Rel TwinConts lc lc') (str : Option (List Byte)) (len : Nat) (errno : ErrCode) :
    TwinTraces (tracedCall g str len lc errno) (tracedCall g' str len lc' errno) := by
  have hnull : ∀ cc cc' : Pcont, TwinConts cc cc' →
      TwinResults
        (.ret { cc := { cc with error := .nullString, lastSexp := [] }
                errno := errno, events := [], cursor := 0 })
        (.ret { cc := { cc' with error := .nullString, lastSexp := [] }
                errno := errno, events := [], cursor := 0 }) := by
    intro cc cc' hcc
    have hvisible : ({ cc with error := .nullString, lastSexp := [] } : Pcont).visible =
        ({ cc' with error := .nullString, lastSexp := [] } : Pcont).visible :=
      congrArg (fun cc : Pcont => { cc with error := .nullString, lastSexp := [] }) hcc.visible
    refine ⟨?_, hvisible, hcc.left, hcc.right⟩
    simp only [Return.visible, hvisible]
  have hnew := initContinuation_of_succeeds h
  have hnew' := initContinuation_of_succeeds h'
  cases str with
  | none =>
    refine ⟨rfl, ?_⟩
    cases hlc with
    | none =>
      simp only [tracedCall, cparseSexp, hnew, hnew']
      exact hnull _ _ (twinConts_new g g')
    | some hcc =>
      simp only [tracedCall, cparseSexp]
      exact hnull _ _ hcc
  | some buf =>
    cases hlc with
    | none =>
      simp only [tracedCall, cparseSexp, hnew, hnew', runParser]
      exact @twins_run ⟨g, buf, len⟩ ⟨g', buf, len⟩ rfl rfl h h' _ _ ((twinConts_new g g').enter 3 3)
    | some hcc =>
      simp only [tracedCall, cparseSexp, hcc.left.mode, hcc.right.mode, runParser]
      exact @twins_run ⟨g, buf, len⟩ ⟨g', buf, len⟩ rfl rfl h h' _ _ (hcc.enter 0 0)

end Calls

/-- Clients whose continuations differ in nothing visible. -/
structure TwinClients (c c' : Client) : Prop where
  cc : Option.Rel TwinConts c.cc c'.cc
  errno : c.errno = c'.errno

lemma TwinTraces.visible {k k' : CallTrace} (h : TwinTraces k k') : k.visible = k'.visible := by
  rw [CallTrace.visible, CallTrace.visible, h.heads, h.outcome.visible]

lemma twinClients_after {c c' : Client} (p : BufferParams) {x y : Result}
    (hxy : TwinResults x y) :
    Option.Rel TwinClients (c.after x) (Client.after { c' with params := p } y) := by
  cases x with
  | ret r =>
    cases y with
    | ret r' => exact .some ⟨.some hxy.2, congrArg (·.errno) hxy.1⟩
    | null _ | fault _ | diverges => exact hxy.elim
  | null _ => exact hxy.elim
  | fault f =>
    cases y with
    | fault _ => exact .none
    | ret _ | null _ | diverges => exact hxy.elim
  | diverges =>
    cases y with
    | diverges => exact .none
    | ret _ | null _ | fault _ => exact hxy.elim

/-- A client may set the sizes of its buffers before its next action. -/
lemma run_untuned (junk : Nat → Nat → Byte) {act : Action} {rest bs : List Action}
    (h : untuned bs = act :: rest) (c : Client) : ∃ bs' p,
      c.run junk bs = Client.run junk (act :: bs') { c with params := p } ∧ untuned bs' = rest := by
  induction bs generalizing c with
  | nil => cases h
  | cons b bs ih =>
    cases b with
    | setParserBufferParams ss gs =>
      obtain ⟨bs', p, hrun, hrest⟩ := ih h _
      exact ⟨bs', p, hrun, hrest⟩
    | setHandlers handlers =>
      obtain ⟨rfl, hrest⟩ := List.cons.inj h
      exact ⟨bs, c.params, rfl, hrest⟩
    | cparseSexp anew str len =>
      obtain ⟨rfl, hrest⟩ := List.cons.inj h
      exact ⟨bs, c.params, rfl, hrest⟩

lemma run_untuned_nil (junk : Nat → Nat → Byte) {bs : List Action} (h : untuned bs = [])
    (c : Client) : c.run junk bs = [] := by
  induction bs generalizing c with
  | nil => rfl
  | cons b bs ih =>
    cases b with
    | setParserBufferParams ss gs => exact ih h _
    | setHandlers handlers => cases h
    | cparseSexp anew str len => cases h

/-- The continuation with other callbacks. -/
lemma TwinConts.setHandlers {cc cc' : Pcont} (h : TwinConts cc cc') (handlers : Option Handlers) :
    TwinConts { cc with eventHandlers := handlers } { cc' with eventHandlers := handlers } := by
  obtain ⟨hvisible, hleft, hright⟩ := h
  have hkeep : ∀ cc : Pcont, Normal cc.toRegs →
      Normal { cc with eventHandlers := handlers }.toRegs := by
    rintro cc ⟨hm, ht, hb, s, L, A, hs⟩
    exact ⟨hm, ht, ⟨hb.room.same ⟨rfl, rfl, rfl⟩, hb.token⟩, s, L, A, hs.state, hs.stack, hs.depth,
      hs.chained, hs.lengths⟩
  exact ⟨congrArg (fun cc : Pcont => { cc with eventHandlers := handlers }) hvisible,
    hkeep cc hleft, hkeep cc' hright⟩

lemma runs_agree (junk junk' : Nat → Nat → Byte) {as bs : List Action}
    (h : untuned as = untuned bs) {c c' : Client} (hc : TwinClients c c') :
    (c.run junk as).map CallTrace.visible = (c'.run junk' bs).map CallTrace.visible := by
  induction as generalizing bs c c' with
  | nil =>
    rw [run_untuned_nil junk' h.symm c']
    rfl
  | cons a as ih =>
    cases a with
    | setParserBufferParams ss gs => exact ih h ⟨hc.cc, hc.errno⟩
    | setHandlers handlers =>
      obtain ⟨bs', p, hrun, hrest⟩ := run_untuned junk' (Eq.symm h) c'
      rw [hrun]
      refine ih hrest.symm ⟨?_, hc.errno⟩
      obtain ⟨params, cc, errno⟩ := c
      obtain ⟨params', cc', errno'⟩ := c'
      cases hc.cc with
      | none => exact .none
      | some hcc => exact .some (hcc.setHandlers handlers)
    | cparseSexp anew str len =>
      obtain ⟨bs', p, hrun, hrest⟩ := run_untuned junk' (Eq.symm h) c'
      rw [hrun]
      obtain ⟨params', cc', errno'⟩ := c'
      obtain rfl : c.errno = errno' := hc.errno
      have hlc : Option.Rel TwinConts (if anew then none else c.cc) (if anew then none else cc') := by
        cases anew with
        | true => exact .none
        | false => exact hc.cc
      have htraces := @twins_call ⟨c.params, junk as.length, fun _ => true⟩
        ⟨p, junk' bs'.length, fun _ => true⟩ (fun _ => rfl) (fun _ => rfl) _ _ hlc str len c.errno
      have hafter := @twinClients_after c ⟨params', cc', c.errno⟩ p _ _ htraces.outcome
      rw [Client.run, Client.run, List.map_cons, List.map_cons]
      dsimp only
      rw [htraces.visible]
      congr 1
      generalize Client.after c _ = m, Client.after ⟨p, cc', c.errno⟩ _ = m' at hafter ⊢
      cases hafter with
      | none => rfl
      | some hm => exact ih hrest.symm hm

/-- Whatever sizes the buffers get and whatever fresh memory holds, two clients that make the same
calls see the same runs: the heads of every loop and the outcome of every call agree in all that is
visible, and so does the round in which a buffer is left. -/
theorem tuning_invisible (p p' : BufferParams) (junk junk' : Nat → Nat → Byte) (as bs : List Action)
    (h : untuned as = untuned bs) :
    ((Client.start p).run junk as).map CallTrace.visible =
      ((Client.start p').run junk' bs).map CallTrace.visible :=
  runs_agree junk junk' h ⟨.none, rfl⟩

/-- The text `(ab c)`, with buffers that grow at every byte, and with those of the default size. -/
theorem tuning_invisible_list :
    ((Client.start defaultParams).run (fun _ _ => nul)
        [.setParserBufferParams 1 1,
          .cparseSexp false (some [lparen, 97, 98, space, 99, rparen, nul]) 6]).map
      CallTrace.visible =
    ((Client.start defaultParams).run (fun _ _ => tilde)
        [.cparseSexp false (some [lparen, 97, 98, space, 99, rparen, nul]) 6]).map
      CallTrace.visible :=
  tuning_invisible defaultParams defaultParams (fun _ _ => nul) (fun _ _ => tilde) _ _ rfl

end Sfsexp.Proofs
