import Sfsexp.Proofs.Buffer

/-!
# The atom buffer is written in bounds

The invariant says, for each state of the automaton, where the write cursor stands. It is kept by
every round of `cparse_sexp` in which the escape flag of an earlier token does not reach the first
byte of a quoted one, and in which the loop is not left in the middle of a token on a path that
resets the state.
-/

namespace Sfsexp.Proofs

open Sfsexp

/-- The states that accumulate the text of a token. -/
def accumulates : State → Bool
  | .s4 | .s5 | .s8 | .s10 | .s12 | .s13 | .s14 => true
  | _ => false

/-- Where the write cursor stands in each state. -/
def TokenInv (l : Regs) : Prop :=
  match l.state with
  | .s1 | .s2 | .s3 | .s6 | .s7 | .s11 => l.valUsed = 0
  | .s4 | .s5 | .s8 | .s10 | .s12 | .s13 | .s14 => l.vcur = l.valUsed
  | .s15 => True
  | .s9 | .unknown => False

structure BufferInv (l : Regs) : Prop where
  room : Room l
  token : TokenInv l

lemma BufferInv.cursor {l : Regs} (h : BufferInv l) (ha : accumulates l.state = true) :
    l.vcur = l.valUsed ∧ l.valUsed < l.valAllocated := by
  refine ⟨?_, h.room.free⟩
  have ht := h.token
  unfold TokenInv at ht
  cases hs : l.state <;> simp_all [accumulates]

/-- A piece of a round that does not write outside the atom buffer. -/
abbrev Keeps (Q : Locals → Prop) (P : Regs → Prop) : Exec Locals → Prop :=
  Post Q (fun r => P r.cc.toRegs) (· ≠ .atomBuffer)

/-- A round that keeps the invariant. -/
abbrev KeepsInv : Exec Locals → Prop := Keeps (fun l => BufferInv l.toRegs) BufferInv

/-- Between tokens the invariant only asks for an empty buffer. -/
lemma BufferInv.between {l l' : Regs} (hr : Room l) (hu : l.valUsed = 0) (h : SameBuffer l l')
    (hs : l'.state = .s1 ∨ l'.state = .s2 ∨ l'.state = .s3 ∨ l'.state = .s6 ∨ l'.state = .s11) :
    BufferInv l' := by
  refine ⟨hr.same h, ?_⟩
  have hu' : l'.valUsed = 0 := h.2.2.trans hu
  rcases hs with hs | hs | hs | hs | hs <;> simp [TokenInv, hs, hu']

lemma Room.of_appended {c : Byte} {l : Locals} {v : List Byte} {a : Nat} (h : Appended c l v a)
    {l' : Regs} (hv : l'.val = v) (ha : l'.valAllocated = a) (hu : l'.valUsed = l.valUsed + 1) :
    Room l' := ⟨by rw [hv, ha]; exact h.cells, by rw [hu, ha]; exact h.free⟩

section Round

variable {env : Env} {l : Locals} {c : Byte}

/-- The buffer after `val_used` was reset and a new buffer was allocated. -/
lemma Room.fresh {l' : Regs} (hv : l'.val = env.fresh env.params.startSize)
    (ha : l'.valAllocated = env.params.startSize) (hu : l'.valUsed = 0) : Room l' :=
  ⟨by rw [hv, ha]; exact env.length_fresh _, by rw [hu, ha]; exact env.params.start_pos⟩

lemma keeps_state1 (h : env.Succeeds) (hi : BufferInv l.toRegs) (hs : l.state = .s1) :
    KeepsInv (state1 env c l) := by
  obtain ⟨hr, ht⟩ := hi
  have hu : l.valUsed = 0 := by simpa [TokenInv, hs] using ht
  rw [state1]
  split_ifs with hw h1 h2 h3 h4 h5
  · exact .between hr hu ⟨rfl, rfl, rfl⟩ (by simp [hs])
  · exact .between hr hu ⟨rfl, rfl, rfl⟩ (by simp)
  · exact .between hr hu ⟨by simp, by simp, by simp⟩ (by simp)
  · exact .between hr hu ⟨rfl, rfl, rfl⟩ (by simp)
  · exact ⟨⟨hr.cells, hr.free⟩, by simp [TokenInv, hu]⟩
  · exact ⟨⟨hr.cells, hr.free⟩, by simp [TokenInv, hu]⟩
  · obtain ⟨v, a, k, hg, happ⟩ := head_ok h hr hu c
    rw [← bind_assoc, hg]
    refine ⟨.of_appended happ rfl rfl (by simp [hu]), ?_⟩
    by_cases hb : c = hash ∧ l.mode = .inlineBinary <;> simp [TokenInv, hb]

lemma keeps_attachList {P : Regs → Prop} (h : env.Succeeds) :
    Keeps (fun l' => SameBuffer l.toRegs l'.toRegs) P (attachList env l) := by
  rw [attachList]
  by_cases hh : l.stack.height < 1
  · rw [if_pos hh, need_ok h, ok_bind, push_ok h]
    exact ⟨rfl, rfl, rfl⟩
  · rw [if_neg hh]
    cases hl : link l with
    | none => simp [Post]
    | some l' =>
      rw [link_frame hl]
      exact ⟨rfl, rfl, rfl⟩

lemma keeps_state2 (h : env.Succeeds) (hi : BufferInv l.toRegs) (hs : l.state = .s2) :
    KeepsInv (state2 env l) := by
  obtain ⟨hr, ht⟩ := hi
  have hu : l.valUsed = 0 := by simpa [TokenInv, hs] using ht
  rw [state2, need_ok h]
  refine (keeps_attachList h).bind ?_
  intro l' hb
  rw [need_ok h, ok_bind, push_ok h]
  exact .between hr hu hb (by simp)

/-- Closing a level touches nothing but the stack. -/
lemma keeps_closeLevel {P : Regs → Prop} (hP : ∀ l', SameBuffer l.toRegs l' →
    l'.state = l.state → P l') :
    Keeps (fun l' => SameBuffer l.toRegs l'.toRegs) P (closeLevel l) := by
  rw [closeLevel]
  split
  · simp [Post]
  · split
    · exact hP _ ⟨rfl, rfl, rfl⟩ rfl
    · split
      · simp [Post]
      · exact ⟨rfl, rfl, rfl⟩

lemma keeps_returnTree (hr : Room l.toRegs) (hu : l.valUsed = 0) :
    KeepsInv (.error (returnTree l)) := by
  rw [returnTree]
  split
  · simp [Post]
  · exact .between hr hu ⟨rfl, rfl, rfl⟩ (by simp)

lemma keeps_state3 (hi : BufferInv l.toRegs) (hs : l.state = .s3) : KeepsInv (state3 l) := by
  obtain ⟨hr, ht⟩ := hi
  have hu : l.valUsed = 0 := by simpa [TokenInv, hs] using ht
  rw [state3]
  split_ifs with hd
  · exact .between hr hu ⟨rfl, rfl, rfl⟩ (by simp)
  refine (keeps_closeLevel fun l' hb hs' => .between hr hu hb (by simp [hs', hs])).bind ?_
  intro l' hb
  have hb' : SameBuffer l.toRegs (fire (·.endSexpr) .endSexpr { l' with state := .s1 }).toRegs := by
    simpa [SameBuffer] using hb
  dsimp only
  split_ifs with hd'
  · exact keeps_returnTree (hr.same hb') (hb'.2.2.trans hu)
  · exact .between hr hu hb' (by simp)

/-- The code that ends a token: after it the buffer is new and empty. -/
lemma keeps_emit (h : env.Succeeds) (aty : AtomT) :
    Keeps (fun l' => Room l'.toRegs ∧ l'.valUsed = 0 ∧ l'.state = l.state) BufferInv
      (emit env aty l) := by
  rw [emit_ok h]
  exact ⟨.fresh rfl rfl rfl, rfl, rfl⟩

/-- The escape code needs a used cell to step back to. -/
lemma keeps_overwrite {P : Regs → Prop} (hr : Room l.toRegs) (hv : l.vcur = l.valUsed)
    (hpos : 0 < l.valUsed) :
    Keeps (fun l' => Room l'.toRegs ∧ l'.vcur = l'.valUsed ∧ l'.state = l.state) P
      (overwrite c l) := by
  obtain ⟨n, hn⟩ := Nat.exists_eq_add_of_lt hpos
  have hlt : 0 + n < l.val.length := by
    rw [hr.cells]
    have := hr.free
    omega
  rw [overwrite_ok (hv.trans hn) hlt]
  exact ⟨⟨by simpa using hr.cells, hr.free⟩, hv, rfl⟩

lemma keeps_afterBare (hr : Room l.toRegs) (hu : l.valUsed = 0) :
    BufferInv (afterBare c l).toRegs := by
  rw [afterBare]
  split_ifs <;> exact .between hr hu ⟨rfl, rfl, rfl⟩ (by simp)

lemma keeps_endBare (h : env.Succeeds) (hr : Room l.toRegs) (hv : l.vcur = l.valUsed) :
    KeepsInv (endBare env c l) := by
  have hlt : l.vcur < l.val.length := by rw [hv, hr.cells]; exact hr.free
  rw [endBare, writeCur_ok hlt]
  simp only [ok_bind, need_ok h]
  refine (keeps_emit h _).bind ?_
  rintro l' ⟨hr', hu', -⟩
  cases hl : link l' with
  | none => exact .between hr' hu' ⟨rfl, rfl, rfl⟩ (by simp)
  | some l'' =>
    rw [link_frame hl]
    exact keeps_afterBare (hr'.same ⟨rfl, rfl, rfl⟩) hu'

lemma keeps_state4 (h : env.Succeeds) (hi : BufferInv l.toRegs) (hs : l.state = .s4)
    (hq : l.esc = true → isEscapable c = true → 0 < l.valUsed) : KeepsInv (state4 env c l) := by
  obtain ⟨hv, -⟩ := hi.cursor (by simp [hs, accumulates])
  rw [state4]
  split_ifs with he ha
  · rw [Bool.and_eq_true] at he
    rw [← bind_pure (overwrite c l)]
    refine (keeps_overwrite hi.room hv (hq he.1 he.2)).bind ?_
    rintro l' ⟨hr', hv', hs'⟩
    exact ⟨hr', by simp [TokenInv, hs', hs, hv']⟩
  · obtain ⟨v, a, k, hg, happ⟩ := storeEsc_ok h hi.room hv c
    rw [hg]
    exact ⟨.of_appended happ rfl rfl rfl, by simp [TokenInv, hs]⟩
  · exact keeps_endBare h hi.room hv

lemma keeps_closingQuote {P : Regs → Prop} (h : env.Succeeds) (hr : Room l.toRegs)
    (hv : l.vcur = l.valUsed) :
    Keeps (fun l' => Room l'.toRegs ∧ l'.vcur = l'.valUsed ∧ l'.state = l.state) P
      (closingQuote env l) := by
  rw [closingQuote]
  by_cases hq : l.squoted
  · obtain ⟨v, a, k, hg, happ⟩ := store_ok h hr hv dquote
    rw [if_pos hq, hg]
    exact ⟨.of_appended happ rfl rfl rfl, rfl, rfl⟩
  · rw [if_neg hq]
    exact ⟨hr, hv, rfl⟩

lemma keeps_endQuoted (h : env.Succeeds) (hr : Room l.toRegs) (hv : l.vcur = l.valUsed)
    (hs : l.state = .s6) : KeepsInv (endQuoted env l) := by
  rw [endQuoted]
  refine (keeps_closingQuote h hr hv).bind ?_
  rintro l' ⟨hr', hv', hs'⟩
  have hlt : l'.vcur < l'.val.length := by rw [hv', hr'.cells]; exact hr'.free
  rw [writeCur_ok hlt]
  simp only [ok_bind, need_ok h]
  refine (keeps_emit h _).bind ?_
  rintro l'' ⟨hr'', hu'', hs''⟩
  cases hl : link l'' with
  | none => exact .between hr'' hu'' ⟨rfl, rfl, rfl⟩ (by simp)
  | some l3 =>
    rw [link_frame hl]
    exact .between hr'' hu'' ⟨rfl, rfl, rfl⟩ (by simp [hs'', hs', hs])

lemma keeps_state5Rest (h : env.Succeeds) (hr : Room l.toRegs) (hv : l.vcur = l.valUsed)
    (hs : l.state = .s5) : KeepsInv (state5Rest env c l) := by
  rw [state5Rest]
  by_cases hc : c = dquote
  · rw [if_pos hc]
    exact keeps_endQuoted h (hr.same ⟨rfl, rfl, rfl⟩) hv rfl
  · rw [if_neg hc]
    obtain ⟨v, a, k, hg, happ⟩ := store_ok h hr hv c
    rw [hg]
    exact ⟨.of_appended happ rfl rfl rfl, by simp [TokenInv, hs]⟩

lemma keeps_state5 (h : env.Succeeds) (hi : BufferInv l.toRegs) (hs : l.state = .s5)
    (hq : l.esc = true → isEscapable c = true → 0 < l.valUsed) : KeepsInv (state5 env c l) := by
  obtain ⟨hv, -⟩ := hi.cursor (by simp [hs, accumulates])
  rw [state5]
  split_ifs with he
  · rw [Bool.and_eq_true] at he
    refine (keeps_overwrite hi.room hv (hq he.1 he.2)).bind ?_
    rintro l' ⟨hr', hv', hs'⟩
    rw [Env.read]
    split
    · exact keeps_state5Rest h hr' hv' (hs'.trans hs)
    · simp [Post]
  · exact keeps_state5Rest h hi.room hv hs

lemma keeps_state7 (h : env.Succeeds) (hi : BufferInv l.toRegs) (hs : l.state = .s7) :
    KeepsInv (state7 env c l) := by
  have hu : l.valUsed = 0 := by simpa [TokenInv, hs] using hi.token
  rw [state7]
  split_ifs with h1 h2
  · obtain ⟨v, a, k, hg, happ⟩ := store_ok h
      (l := { l with state := .s5, vcur := 0, t := l.t + 1 })
      (hi.room.same ⟨rfl, rfl, rfl⟩) hu.symm dquote
    rw [hg]
    exact ⟨.of_appended happ rfl rfl rfl, by simp [TokenInv]⟩
  · exact ⟨hi.room.same ⟨rfl, rfl, rfl⟩, by simp [TokenInv, hu]⟩
  · exact ⟨hi.room.same ⟨rfl, rfl, rfl⟩, by simp [TokenInv, hu]⟩

lemma keeps_endQuotedList (h : env.Succeeds) (hr : Room l.toRegs) (hv : l.vcur = l.valUsed)
    (hs : l.state = .s1) : KeepsInv (endQuotedList env l) := by
  have hlt : l.vcur < l.val.length := by rw [hv, hr.cells]; exact hr.free
  rw [endQuotedList, writeCur_ok hlt]
  simp only [ok_bind, need_ok h]
  refine (keeps_emit h _).bind ?_
  rintro l' ⟨hr', hu', hs'⟩
  cases hl : link l' with
  | none => exact .between hr' hu' ⟨rfl, rfl, rfl⟩ (by simp)
  | some l'' =>
    rw [link_frame hl]
    exact .between hr' hu' ⟨rfl, rfl, rfl⟩ (by simp [hs', hs])

lemma keeps_state9 (h : env.Succeeds) (hr : Room l.toRegs) (hv : l.vcur = l.valUsed) :
    KeepsInv (state9 env l) := by
  rw [state9]
  by_cases hq : l.qdepth = 0
  · rw [if_pos hq]
    exact keeps_endQuotedList h (hr.same ⟨rfl, rfl, rfl⟩) hv rfl
  · rw [if_neg hq]
    exact ⟨hr.same ⟨rfl, rfl, rfl⟩, by simp [TokenInv, hv]⟩

lemma countParen_frame :
    SameBuffer l.toRegs (countParen c l).toRegs ∧ (countParen c l).vcur = l.vcur ∧
      ((countParen c l).state = l.state ∨ (countParen c l).state = .s9 ∨
        (countParen c l).state = .s10) := by
  rw [countParen]
  split_ifs <;> simp [SameBuffer]

lemma keeps_state8 (h : env.Succeeds) (hi : BufferInv l.toRegs) (hs : l.state = .s8) :
    KeepsInv (state8 env c l) := by
  obtain ⟨hv, -⟩ := hi.cursor (by simp [hs, accumulates])
  obtain ⟨hb, hc, hstate⟩ := countParen_frame (l := l) (c := c)
  obtain ⟨v, a, k, hg, happ⟩ := storeEsc_ok h (hi.room.same hb)
    ((hc.trans hv).trans hb.2.2.symm) c
  have hr : ∀ l' : Regs, l'.val = v → l'.valAllocated = a →
      l'.valUsed = (countParen c l).valUsed + 1 → Room l' := fun l' => .of_appended happ
  rw [state8, hg, ok_bind]
  dsimp only
  split_ifs with h9
  · exact keeps_state9 h (hr _ rfl rfl rfl) rfl
  · refine ⟨hr _ rfl rfl rfl, ?_⟩
    rcases hstate with h' | h' | h'
    · simp [TokenInv, h', hs]
    · exact absurd h' h9
    · simp [TokenInv, h']

lemma keeps_append {l' : Locals} (h : env.Succeeds) (hr : Room l.toRegs)
    (hb : SameBuffer l.toRegs l'.toRegs) (hv : l'.vcur = l.valUsed)
    (hs : l'.state = .s8 ∨ l'.state = .s10 ∨ l'.state = .s14) :
    KeepsInv (storeEsc env c l' >>= fun l => .ok { l with t := l.t + 1 }) := by
  obtain ⟨v, a, k, hg, happ⟩ := storeEsc_ok h (hr.same hb) (hv.trans hb.2.2.symm) c
  rw [hg]
  refine ⟨.of_appended happ rfl rfl rfl, ?_⟩
  rcases hs with hs | hs | hs <;> simp [TokenInv, hs]

lemma keeps_state10 (h : env.Succeeds) (hi : BufferInv l.toRegs) (hs : l.state = .s10) :
    KeepsInv (state10 env c l) := by
  obtain ⟨hv, -⟩ := hi.cursor (by simp [hs, accumulates])
  rw [state10]
  split_ifs
  · exact keeps_append h hi.room ⟨rfl, rfl, rfl⟩ hv (.inl rfl)
  · exact keeps_append h hi.room ⟨rfl, rfl, rfl⟩ hv (.inr (.inl hs))

lemma keeps_state11 (hi : BufferInv l.toRegs) (hs : l.state = .s11) : KeepsInv (state11 c l) := by
  have hu : l.valUsed = 0 := by simpa [TokenInv, hs] using hi.token
  rw [state11]
  refine .between hi.room hu ⟨rfl, rfl, rfl⟩ ?_
  by_cases hc : c = newline <;> simp [hc]

lemma keeps_state12 (h : env.Succeeds) (hi : BufferInv l.toRegs) (hs : l.state = .s12) :
    KeepsInv (state12 env c l) := by
  obtain ⟨hv, -⟩ := hi.cursor (by simp [hs, accumulates])
  rw [state12]
  by_cases hc : c = letterB
  · obtain ⟨v, a, k, hg, happ⟩ := storeEsc_ok h hi.room hv c
    rw [if_pos hc, hg]
    exact ⟨.of_appended happ rfl rfl rfl, by simp [TokenInv]⟩
  · rw [if_neg hc]
    exact ⟨hi.room.same ⟨rfl, rfl, rfl⟩, by simp [TokenInv, hv]⟩

lemma keeps_state13 (h : env.Succeeds) (hi : BufferInv l.toRegs) (hs : l.state = .s13) :
    KeepsInv (state13 env c l) := by
  obtain ⟨hv, -⟩ := hi.cursor (by simp [hs, accumulates])
  rw [state13]
  by_cases hc : c = hash
  · obtain ⟨v, a, k, hg, happ⟩ := storeEsc_ok h hi.room hv c
    rw [if_pos hc, hg]
    exact ⟨⟨happ.cells, Nat.lt_of_le_of_lt (Nat.zero_le _) happ.free⟩, by simp [TokenInv]⟩
  · rw [if_neg hc]
    exact ⟨hi.room.same ⟨rfl, rfl, rfl⟩, by simp [TokenInv, hv]⟩

lemma keeps_endSize (h : env.Succeeds) (hr : Room l.toRegs) (hv : l.vcur = l.valUsed)
    (hs : l.state = .s15) : KeepsInv (endSize env l) := by
  have hlt : l.vcur < l.val.length := by rw [hv, hr.cells]; exact hr.free
  rw [endSize, writeCur_ok hlt, ok_bind]
  dsimp only
  split_ifs
  · rw [need_ok h]
    exact ⟨⟨by simpa using hr.cells, hr.free⟩, by simp [TokenInv, hs]⟩
  · exact ⟨⟨by simpa using hr.cells, hr.free⟩, by simp [TokenInv, hs]⟩

lemma keeps_state14 (h : env.Succeeds) (hi : BufferInv l.toRegs) (hs : l.state = .s14) :
    KeepsInv (state14 env c l) := by
  obtain ⟨hv, -⟩ := hi.cursor (by simp [hs, accumulates])
  rw [state14]
  by_cases hc : c = hash
  · rw [if_pos hc]
    exact keeps_endSize h (hi.room.same ⟨rfl, rfl, rfl⟩) hv rfl
  · rw [if_neg hc]
    exact keeps_append h hi.room ⟨rfl, rfl, rfl⟩ hv (.inr (.inr hs))

/-- Reading a blob touches neither the atom buffer nor the state. -/
lemma keeps_readBlob {P : Regs → Prop} :
    Keeps (fun l' => SameBuffer l.toRegs l'.toRegs ∧ l'.state = l.state) P (readBlob env l) := by
  rw [readBlob]
  by_cases hb : l.binread < l.binexpected
  · rw [if_pos hb, Env.read]
    cases env.buf[l.t]? with
    | none => simp [Post]
    | some c =>
      cases hd : l.bindata with
      | none => simp [Post]
      | some data =>
        simp only [ok_bind]
        split_ifs
        · exact ⟨⟨rfl, rfl, rfl⟩, rfl⟩
        · simp [Post]
  · rw [if_neg hb]
    exact ⟨⟨rfl, rfl, rfl⟩, rfl⟩

lemma keeps_endBlob (h : env.Succeeds) (hr : Room l.toRegs) : KeepsInv (endBlob env l) := by
  have hinv : ∀ l' : Regs, l'.val = l.val → l'.valAllocated = l.valAllocated → l'.valUsed = 0 →
      l'.state = .s1 → BufferInv l' := by
    intro l' hv ha hu hs
    refine ⟨⟨by rw [hv, ha]; exact hr.cells, ?_⟩, by simp [TokenInv, hs, hu]⟩
    rw [hu, ha]
    exact Nat.lt_of_le_of_lt (Nat.zero_le _) hr.free
  rw [endBlob, need_ok h, ok_bind]
  dsimp only [Post]
  rw [link]
  split <;> exact hinv _ (by simp) (by simp) (by simp) (by simp)

lemma keeps_state15 (h : env.Succeeds) (hi : BufferInv l.toRegs) (hs : l.state = .s15) :
    KeepsInv (state15 env l) := by
  rw [state15]
  refine keeps_readBlob.bind ?_
  rintro l' ⟨hb, hs'⟩
  split_ifs
  · exact keeps_endBlob h (hi.room.same hb)
  · exact ⟨hi.room.same hb, by simp [TokenInv, hs', hs]⟩

lemma keeps_finish (hi : BufferInv l.toRegs)
    (hexit : l.depth = 0 → 0 < l.elts → l.valUsed = 0) : KeepsInv (.error (finish env l)) := by
  rw [finish]
  split_ifs with hd
  · exact keeps_returnTree hi.room (hexit hd.1 hd.2)
  · split
    · simp [Post]
    · exact hi

lemma keeps_switch (h : env.Succeeds) (hi : BufferInv l.toRegs)
    (hq : l.state = .s4 ∨ l.state = .s5 → l.esc = true → isEscapable c = true → 0 < l.valUsed) :
    KeepsInv (switch env c l) := by
  rw [switch]
  cases hs : l.state with
  | s1 => exact keeps_state1 h hi hs
  | s2 => exact keeps_state2 h hi hs
  | s3 => exact keeps_state3 hi hs
  | s4 => exact keeps_state4 h hi hs (hq (.inl hs))
  | s5 => exact keeps_state5 h hi hs (hq (.inr hs))
  | s6 =>
    have hu : l.valUsed = 0 := by simpa [TokenInv, hs] using hi.token
    exact .between hi.room hu ⟨rfl, rfl, rfl⟩ (by simp)
  | s7 => exact keeps_state7 h hi hs
  | s8 => exact keeps_state8 h hi hs
  | s10 => exact keeps_state10 h hi hs
  | s11 => exact keeps_state11 hi hs
  | s12 => exact keeps_state12 h hi hs
  | s13 => exact keeps_state13 h hi hs
  | s14 => exact keeps_state14 h hi hs
  | s15 => exact keeps_state15 h hi hs
  | s9 => simpa [TokenInv, hs] using hi.token
  | unknown => simpa [TokenInv, hs] using hi.token

/-- The loop is about to be left: the buffer or the string ends here. -/
def AtEnd (env : Env) (l : Locals) : Prop :=
  l.t = env.len ∨ (l.state ≠ .s15 ∧ env.buf[l.t]? = some nul)

/-- The next byte is escaped by a backslash of an earlier token: it comes first in a quoted token,
and the escape flag is set. -/
def StaleEscape (env : Env) (l : Locals) : Prop :=
  (l.state = .s4 ∨ l.state = .s5) ∧ l.valUsed = 0 ∧ l.esc = true ∧
    ∃ c, env.buf[l.t]? = some c ∧ isEscapable c = true

/-- The rounds that keep the invariant: no byte is escaped by an earlier token, and the loop is not
left at depth 0 in the middle of a token after an element was completed. -/
structure TidyRound (env : Env) (l : Locals) : Prop where
  escape : ¬ StaleEscape env l
  exit : AtEnd env l → l.depth = 0 → 0 < l.elts → l.valUsed = 0

lemma TidyRound.used (hc : TidyRound env l) (hb : env.buf[l.t]? = some c)
    (hs : l.state = .s4 ∨ l.state = .s5) (he : l.esc = true) (hq : isEscapable c = true) :
    0 < l.valUsed := by
  by_contra h0
  exact hc.escape ⟨hs, by omega, he, c, hb, hq⟩

lemma keeps_cparseHead (h : env.Succeeds) (hi : BufferInv l.toRegs) (hc : TidyRound env l) :
    KeepsInv (cparseHead env l) := by
  rw [cparseHead]
  by_cases h15 : l.state = .s15
  · rw [if_pos h15]
    split_ifs with ht
    · exact keeps_finish hi (hc.exit (.inl ht))
    · exact keeps_state15 h hi h15
  · rw [if_neg h15, Env.read]
    cases hb : env.buf[l.t]? with
    | none => simp [Post]
    | some c =>
      simp only [ok_bind]
      split_ifs with hn
      · refine keeps_finish hi (hc.exit ?_)
        rcases hn with rfl | ht
        · exact .inr ⟨h15, hb⟩
        · exact .inl ht
      · exact keeps_switch h hi (hc.used hb)

end Round

end Sfsexp.Proofs
