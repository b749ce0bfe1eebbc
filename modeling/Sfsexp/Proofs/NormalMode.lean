import Sfsexp.Proofs.BufferBounds
import Sfsexp.Proofs.Callbacks
import Sfsexp.Proofs.ParseStack

/-!
# What every run in mode `PARSER_NORMAL` keeps

On any bytes and with any handlers: the states of binary blobs are not met, a loop at depth 0 has
completed no element, and the invariants of the atom buffer and of the stack hold. A round that
would break them is undefined.
-/

namespace Sfsexp.Proofs

open Sfsexp

/-- A round that stays outside binary mode, and that completes no element while the stack is
empty. -/
abbrev Steady (l : Locals) : Exec Locals → Prop :=
  Post (fun l' => l'.mode = l.mode ∧ textual l'.state = true ∧
      (l.stack.levels = [] → l'.elts = l.elts))
    (fun r => r.cc.mode = l.mode ∧ textual r.cc.state = true) fun _ => True

section Rounds

variable {env : Env} {l l₀ : Locals} {c : Byte}

lemma Quietly.steady {x : Exec Locals} {f : Locals → Exec Locals} (hx : Quietly l x)
    (hf : ∀ l', Quiet l l' → Steady l₀ (f l')) : Steady l₀ (x >>= f) :=
  Post.bind (hx.mono (fun _ h => h) fun _ h => h.elim) hf

lemma Quietly.steady_self {x : Exec Locals} (hx : Quietly l x) (ht : textual l.state = true) :
    Steady l x := by
  refine hx.mono ?_ fun _ h => h.elim
  intro l' hq
  exact ⟨hq.mode, by rwa [hq.state], fun _ => hq.elts⟩

lemma steady_state1 (h : env.Succeeds) (hm : l.mode = .normal) (hs : l.state = .s1) :
    Steady l (state1 env c l) := by
  rw [state1]
  split_ifs
  · exact ⟨rfl, by simp [hs, textual], fun _ => rfl⟩
  · exact ⟨rfl, rfl, fun _ => rfl⟩
  · rw [fire_eq]
    exact ⟨rfl, rfl, fun _ => rfl⟩
  · exact ⟨rfl, rfl, fun _ => rfl⟩
  · exact ⟨rfl, rfl, fun _ => rfl⟩
  · exact ⟨rfl, rfl, fun _ => rfl⟩
  · refine Quietly.steady quietly_writeCur ?_
    intro l₁ h₁
    refine Quietly.steady (quietly_grow h) ?_
    intro l₂ h₂
    have hmode : l₂.mode = l.mode := h₂.mode.trans h₁.mode
    refine ⟨hmode, ?_, fun _ => h₂.elts.trans h₁.elts⟩
    simp [hmode, hm, textual]

/-- The end of a token: the callback and the new buffer, and the atom on the stack if there is
one. -/
lemma steady_emit (h : env.Succeeds) {aty : AtomT} {l' : Locals}
    (hl : l'.mode = l₀.mode ∧ l'.stack = l₀.stack) {onReturn : Locals → Stop}
    {onStay : Locals → Locals}
    (hret : ∀ m, m.mode = l₀.mode → Steady l₀ (.error (onReturn m)))
    (hstay : ∀ m, m.mode = l'.mode → m.state = l'.state →
      (onStay m).mode = l₀.mode ∧ textual (onStay m).state = true) :
    Steady l₀ (emit env aty l' >>= fun l => match link l with
      | none => .error (onReturn l)
      | some l => .ok (onStay l)) := by
  rw [emit_ok h, ok_bind]
  cases hlink : link (emitted env aty l') with
  | none => exact hret _ hl.1
  | some m =>
    have hm := link_frame hlink
    have hstays := hstay m (by rw [hm]; rfl) (by rw [hm]; rfl)
    refine ⟨hstays.1, hstays.2, ?_⟩
    intro hempty
    have hnone : link (emitted env aty l') = none := by
      have hlevels : (emitted env aty l').stack.levels = [] := by
        rw [← hempty, ← hl.2]
        rfl
      rw [link, hlevels]
    rw [hnone] at hlink
    cases hlink

lemma steady_endBare (h : env.Succeeds) : Steady l (endBare env c l) := by
  rw [endBare]
  refine Quietly.steady quietly_writeCur ?_
  intro l₁ h₁
  simp only [need_ok h, ok_bind]
  refine steady_emit h ?_ ?_ ?_
  · exact ⟨h₁.mode, h₁.stack⟩
  · intro m hm
    exact ⟨hm, rfl⟩
  · intro m hm hstate
    have hmode : m.mode = l.mode := hm.trans h₁.mode
    rw [afterBare]
    split_ifs <;> exact ⟨hmode, rfl⟩

lemma steady_state4 (h : env.Succeeds) (hs : l.state = .s4) : Steady l (state4 env c l) := by
  have ht : textual l.state = true := by simp [hs, textual]
  rw [state4]
  split_ifs
  · exact quietly_overwrite.steady_self ht
  · refine Quietly.steady (quietly_storeEsc h) ?_
    intro l₁ h₁
    exact ⟨h₁.mode, by simp [h₁.state, ht], fun _ => h₁.elts⟩
  · exact steady_endBare h

lemma steady_endQuoted (h : env.Succeeds) (hs : l.state = .s6)
    (hl : l.mode = l₀.mode ∧ l.stack = l₀.stack) : Steady l₀ (endQuoted env l) := by
  rw [endQuoted]
  refine Quietly.steady (quietly_closingQuote h) ?_
  intro l₁ h₁
  refine Quietly.steady quietly_writeCur ?_
  intro l₂ h₂
  simp only [need_ok h, ok_bind]
  have hmode : l₂.mode = l₀.mode := (h₂.mode.trans h₁.mode).trans hl.1
  refine steady_emit h ?_ ?_ ?_
  · exact ⟨hmode, (h₂.stack.trans h₁.stack).trans hl.2⟩
  · intro m hm
    exact ⟨hm, rfl⟩
  · intro m hm hstate
    refine ⟨hm.trans hmode, ?_⟩
    simp [hstate, h₂.state, h₁.state, hs, textual]

lemma steady_state5Rest (h : env.Succeeds) (hs : l.state = .s5)
    (hl : l.mode = l₀.mode ∧ l.stack = l₀.stack ∧ l.elts = l₀.elts) :
    Steady l₀ (state5Rest env c l) := by
  rw [state5Rest]
  split_ifs
  · exact steady_endQuoted h rfl ⟨hl.1, hl.2.1⟩
  · refine Quietly.steady (quietly_store h) ?_
    intro l₁ h₁
    exact ⟨h₁.mode.trans hl.1, by simp [h₁.state, hs, textual], fun _ => h₁.elts.trans hl.2.2⟩

lemma steady_state5 (h : env.Succeeds) (hs : l.state = .s5) : Steady l (state5 env c l) := by
  rw [state5]
  split_ifs
  · refine Quietly.steady quietly_overwrite ?_
    intro l₁ h₁
    rw [Env.read]
    split
    · exact steady_state5Rest h (h₁.state.trans hs) ⟨h₁.mode, h₁.stack, h₁.elts⟩
    · trivial
  · exact steady_state5Rest h hs ⟨rfl, rfl, rfl⟩

lemma steady_state7 (h : env.Succeeds) : Steady l (state7 env c l) := by
  rw [state7]
  split_ifs
  · refine Quietly.steady (quietly_store h) ?_
    intro l₁ h₁
    exact ⟨h₁.mode, by simp [h₁.state, textual], fun _ => h₁.elts⟩
  · exact ⟨rfl, rfl, fun _ => rfl⟩
  · exact ⟨rfl, rfl, fun _ => rfl⟩

lemma steady_state9 (h : env.Succeeds)
    (hl : l.mode = l₀.mode ∧ l.stack = l₀.stack ∧ l.elts = l₀.elts) :
    Steady l₀ (state9 env l) := by
  rw [state9]
  split_ifs
  · rw [endQuotedList]
    refine Quietly.steady quietly_writeCur ?_
    intro l₁ h₁
    simp only [need_ok h, ok_bind]
    refine steady_emit h ?_ ?_ ?_
    · exact ⟨h₁.mode.trans hl.1, h₁.stack.trans hl.2.1⟩
    · intro m hm
      exact ⟨hm, rfl⟩
    · intro m hm hstate
      refine ⟨(hm.trans h₁.mode).trans hl.1, ?_⟩
      simp [hstate, h₁.state, textual]
  · exact ⟨hl.1, rfl, fun _ => hl.2.2⟩

lemma countParen_calm : (countParen c l).mode = l.mode ∧ (countParen c l).stack = l.stack ∧
    (countParen c l).elts = l.elts := by
  rw [countParen]
  split_ifs <;> exact ⟨rfl, rfl, rfl⟩

lemma textual_countParen (hs : l.state = .s8) : textual (countParen c l).state = true := by
  rw [countParen]
  split_ifs <;> simp [hs, textual]

lemma steady_state8 (h : env.Succeeds) (hs : l.state = .s8) : Steady l (state8 env c l) := by
  obtain ⟨hmode, hstack, helts⟩ := @countParen_calm l c
  rw [state8]
  refine Quietly.steady (quietly_storeEsc h) ?_
  intro l₁ h₁
  dsimp only
  split_ifs
  · exact steady_state9 h ⟨h₁.mode.trans hmode, h₁.stack.trans hstack, h₁.elts.trans helts⟩
  · refine ⟨h₁.mode.trans hmode, ?_, fun _ => h₁.elts.trans helts⟩
    rw [h₁.state]
    exact textual_countParen hs

lemma steady_state10 (h : env.Succeeds) (hs : l.state = .s10) : Steady l (state10 env c l) := by
  rw [state10]
  refine Quietly.steady (quietly_storeEsc h) ?_
  intro l₁ h₁
  split_ifs at h₁
  · exact ⟨h₁.mode, by simp [h₁.state, textual], fun _ => h₁.elts⟩
  · exact ⟨h₁.mode, by simp [h₁.state, hs, textual], fun _ => h₁.elts⟩

lemma steady_state11 : Steady l (state11 c l) := by
  refine ⟨rfl, ?_, fun _ => rfl⟩
  by_cases hc : c = newline <;> simp [hc, textual]

/-- Every round but those of the parens. -/
lemma steady_switch (h : env.Succeeds) (hm : l.mode = .normal) (ht : textual l.state = true)
    (hs2 : l.state ≠ .s2) (hs3 : l.state ≠ .s3) : Steady l (switch env c l) := by
  rw [switch]
  cases hs : l.state with
  | s1 => exact steady_state1 h hm hs
  | s2 => exact absurd hs hs2
  | s3 => exact absurd hs hs3
  | s4 => exact steady_state4 h hs
  | s5 => exact steady_state5 h hs
  | s6 => exact ⟨rfl, rfl, fun _ => rfl⟩
  | s7 => exact steady_state7 h
  | s8 => exact steady_state8 h hs
  | s9 => exact steady_state9 h ⟨rfl, rfl, rfl⟩
  | s10 => exact steady_state10 h hs
  | s11 => exact steady_state11
  | s12 | s13 | s14 | s15 | unknown => simp [hs, textual] at ht

end Rounds

/-- What a continuation in mode `PARSER_NORMAL` is like between two calls. -/
structure Normal (l : Regs) : Prop where
  mode : l.mode = .normal
  textual : textual l.state = true
  buffer : BufferInv l
  stack : ∃ s, Shaped l s

/-- The same at a loop head. -/
structure NormalHead (l : Locals) : Prop where
  normal : Normal l.toRegs
  fresh : l.depth = 0 → l.elts = 0

lemma normal_new (g : Setup) : Normal (Pcont.new g).toRegs :=
  ⟨rfl, rfl, bufferInv_new g, _, shaped_new g⟩

lemma Normal.enter {cc : Pcont} (h : Normal cc.toRegs) (allocs : Nat) :
    NormalHead (cc.enter allocs) := ⟨h, fun _ => rfl⟩

section Head

variable {env : Env} {l : Locals}

/-- A round that breaks the invariant of the atom buffer is undefined. -/
lemma normal_buffer (h : env.Succeeds) (hi : NormalHead l) :
    Post (fun l' => BufferInv l'.toRegs) (fun r => BufferInv r.cc.toRegs) (fun _ => True)
      (cparseHead env l) := by
  have hexit : AtEnd env l → l.depth = 0 → 0 < l.elts → l.valUsed = 0 := by
    intro _ hd helts
    have := hi.fresh hd
    omega
  have hweak : KeepsInv (cparseHead env l) → Post (fun l' => BufferInv l'.toRegs)
      (fun r => BufferInv r.cc.toRegs) (fun _ => True) (cparseHead env l) := by
    intro hk
    match cparseHead env l, hk with
    | .ok _, hk => exact hk
    | .error (.ret _), hk => exact hk
    | .error (.fault _), _ => trivial
  by_cases hstale : StaleEscape env l
  · by_cases hend : AtEnd env l
    · refine hweak ?_
      have hleaves : Links.leaves env l = true := by
        rcases hend with ht | ⟨h15, hb⟩
        · simp [Links.leaves, ht]
        · simp [Links.leaves, h15, hb]
      rcases head_of_leaves hleaves with hrun | hrun
      · rw [hrun]
        exact keeps_finish hi.normal.buffer (hexit hend)
      · rw [hrun]
        simp [Post]
    · have hmode : (⟨l.toRegs, [], none, .ok⟩ : Pcont).mode ≠ .eventsOnly := by
        simp [hi.normal.mode]
      have hfault := @head_of_staleEscape ⟨env.toSetup, env.buf, env.len, .ok⟩
        ⟨l.toRegs, [], none, .ok⟩ l hi.normal.buffer hstale fun ht => hend (.inl ht)
      rw [Call.head, if_neg hmode] at hfault
      have hrun : cparseHead env l = .error (.fault .atomBuffer) := hfault
      rw [hrun]
      trivial
  · exact hweak (keeps_cparseHead h hi.normal.buffer ⟨hstale, hexit⟩)

lemma mode_returnTree : Post (fun _ => False)
    (fun r => r.cc.mode = l.mode ∧ textual r.cc.state = true) (fun _ => True)
    (.error (returnTree l)) := by
  rw [returnTree]
  split
  · trivial
  · exact ⟨rfl, rfl⟩

lemma mode_finish (ht : textual l.state = true) : Post (fun _ => False)
    (fun r => r.cc.mode = l.mode ∧ textual r.cc.state = true) (fun _ => True)
    (.error (finish env l)) := by
  rw [finish]
  split_ifs
  · exact mode_returnTree
  · split
    · trivial
    · exact ⟨rfl, ht⟩

/-- Open paren: the depth is positive afterwards. -/
lemma steady_state2 (h : env.Succeeds) {L : List (List Sexp)} (hs : StackOk l.stack L) :
    Post (fun l' => l'.mode = l.mode ∧ textual l'.state = true ∧ (l'.depth = 0 → l'.elts = 0))
      (fun r => r.cc.mode = l.mode ∧ textual r.cc.state = true) (fun _ => True)
      (state2 env l) := by
  obtain ⟨s, k, hrun, -⟩ := state2_ok h hs
  rw [hrun]
  exact ⟨rfl, rfl, fun hd => absurd hd (Nat.succ_ne_zero _)⟩

/-- Close paren: the loop goes on only inside a list. -/
lemma steady_state3 (hs : l.state = .s3) : Post (fun l' => l'.mode = l.mode ∧ textual l'.state = true ∧
      (l'.depth = 0 → l'.elts = 0))
    (fun r => r.cc.mode = l.mode ∧ textual r.cc.state = true) (fun _ => True) (state3 l) := by
  rw [state3]
  split_ifs with hd
  · exact ⟨rfl, rfl⟩
  rw [closeLevel]
  split
  · trivial
  · split
    · exact ⟨rfl, by simp [hs, textual]⟩
    · split
      · trivial
      · simp only [ok_bind, fire_eq]
        split_ifs with hd'
        · exact (mode_returnTree (l := _)).mono (fun _ h => h.elim) fun _ h => h
        · exact ⟨rfl, rfl, fun h => absurd h hd'⟩

/-- Every round keeps the mode, and completes no element at depth 0 without returning it. -/
lemma steady_cparseHead (h : env.Succeeds) (hi : NormalHead l) :
    Post (fun l' => l'.mode = l.mode ∧ textual l'.state = true ∧ (l'.depth = 0 → l'.elts = 0))
      (fun r => r.cc.mode = l.mode ∧ textual r.cc.state = true) (fun _ => True)
      (cparseHead env l) := by
  obtain ⟨⟨hm, ht, -, s, hshape⟩, hfresh⟩ := hi
  have hempty := hshape.parseStack.empty
  by_cases hleave : Links.leaves env l = true
  · rcases head_of_leaves hleave with hrun | hrun
    · rw [hrun]
      exact (mode_finish ht).mono (fun _ h => h.elim) fun _ h => h
    · rw [hrun]
      trivial
  · rcases head_of_stays (by simpa using hleave) with ⟨c, hrun⟩ | hrun
    · rw [hrun]
      by_cases hs2 : l.state = .s2
      · obtain ⟨L, A, hshape⟩ := hshape
        rw [switch, hs2]
        exact steady_state2 h hshape.stack
      by_cases hs3 : l.state = .s3
      · rw [switch, hs3]
        exact steady_state3 hs3
      have hsteady := @steady_switch env l c h hm ht hs2 hs3
      have hadds := @adds_switch env l c h (by rintro he; simp [he, textual] at ht) hs2 hs3
      cases hrun : switch env c l with
      | ok l' =>
        rw [hrun] at hsteady hadds
        refine ⟨hsteady.1, hsteady.2.1, ?_⟩
        intro hd
        have hd0 : l.depth = 0 := hadds.1.symm.trans hd
        exact (hsteady.2.2 (hempty.mp hd0)).trans (hfresh hd0)
      | error stop =>
        rw [hrun] at hsteady
        cases stop with
        | ret r => exact hsteady
        | fault f => trivial
    · rw [hrun]
      trivial

/-- Every round keeps the invariant, whatever bytes it reads. -/
theorem normal_cparseHead (h : env.Succeeds) (hi : NormalHead l) :
    Post NormalHead (fun r => Normal r.cc.toRegs) (fun _ => True) (cparseHead env l) := by
  have hbuffer := normal_buffer h hi
  have hsteady := steady_cparseHead h hi
  obtain ⟨⟨hm, -, -, s, hshape⟩, -⟩ := hi
  cases hrun : cparseHead env l with
  | ok l' =>
    rw [hrun] at hbuffer hsteady
    obtain ⟨s', -, hshape'⟩ := linkHead_of_ok h hshape hrun
    exact ⟨⟨hsteady.1.trans hm, hsteady.2.1, hbuffer, s', hshape'⟩, hsteady.2.2⟩
  | error stop =>
    rw [hrun] at hbuffer hsteady
    cases stop with
    | ret r =>
      obtain ⟨s', -, hk⟩ := linkHead_of_error h hshape hrun
      exact ⟨hsteady.1.trans hm, hsteady.2, hbuffer, s', hk.shaped⟩
    | fault f => trivial

end Head

end Sfsexp.Proofs
