import Sfsexp.Proofs.AtomBuffer

/-!
# The atom buffer of `eparse_sexp`

The invariant of the atom buffer for the second copy of the parser, whose returns write the fields
of the continuation one by one.
-/

namespace Sfsexp.Proofs.EventEnv

open Sfsexp Sfsexp.EventEnv

section Round

variable {env : EventEnv} {l : Locals} {c : Byte}

lemma keeps_save {l' : Locals} (hr : Room l.toRegs) (hu : l.valUsed = 0)
    (hb : SameBuffer l.toRegs l'.toRegs) (err : ErrCode) (squoted : Bool) :
    KeepsInv (.error (env.save l' err squoted)) :=
  .between hr hu hb (by simp)

lemma keeps_state1 (h : env.Succeeds) (hi : BufferInv l.toRegs) (hs : l.state = .s1) :
    KeepsInv (env.state1 c l) := by
  obtain ⟨hr, ht⟩ := hi
  have hu : l.valUsed = 0 := by simpa [TokenInv, hs] using ht
  rw [EventEnv.state1]
  split_ifs with hw h1 h2 h3 h4 h5
  · exact .between hr hu ⟨rfl, rfl, rfl⟩ (by simp [hs])
  · exact .between hr hu ⟨rfl, rfl, rfl⟩ (by simp)
  · exact .between hr hu ⟨by simp, by simp, by simp⟩ (by simp)
  · exact .between hr hu ⟨rfl, rfl, rfl⟩ (by simp)
  · exact ⟨⟨hr.cells, hr.free⟩, by simp [TokenInv, hu]⟩
  · exact ⟨⟨hr.cells, hr.free⟩, by simp [TokenInv, hu]⟩
  · obtain ⟨v, a, k, hg, happ⟩ := storeEsc_ok h (l := { l with vcur := 0 })
      (hr.same ⟨rfl, rfl, rfl⟩) hu.symm c
    rw [hg]
    refine ⟨.of_appended happ rfl rfl rfl, ?_⟩
    by_cases hb : c = hash ∧ l.mode = .inlineBinary <;> simp [TokenInv, hb]

lemma keeps_state2 (hi : BufferInv l.toRegs) (hs : l.state = .s2) :
    BufferInv (EventEnv.state2 l).toRegs := by
  obtain ⟨hr, ht⟩ := hi
  have hu : l.valUsed = 0 := by simpa [TokenInv, hs] using ht
  exact .between hr hu ⟨rfl, rfl, rfl⟩ (.inl rfl)

lemma keeps_state3 (hi : BufferInv l.toRegs) (hs : l.state = .s3) : KeepsInv (env.state3 l) := by
  obtain ⟨hr, ht⟩ := hi
  have hu : l.valUsed = 0 := by simpa [TokenInv, hs] using ht
  rw [EventEnv.state3]
  split_ifs with hd
  · exact keeps_save hr hu ⟨rfl, rfl, rfl⟩ _ _
  have hb : SameBuffer l.toRegs (fire (·.endSexpr) .endSexpr
      { l with t := l.t + 1, depth := l.depth - 1
               stack := { l.stack with height := l.stack.height - 1 } }).toRegs := by
    simp [SameBuffer]
  dsimp only
  split_ifs with hd'
  · exact keeps_save hr hu (by exact hb) _ _
  · exact .between hr hu hb (.inl rfl)

/-- After a report the buffer is empty. -/
lemma report_frame (hr : Room { l.toRegs with valUsed := 0 }) (aty : AtomT) :
    Room (report aty l).toRegs ∧ (report aty l).valUsed = 0 ∧ (report aty l).state = l.state := by
  refine ⟨⟨?_, ?_⟩, rfl, by simp [report]⟩
  · simpa [report] using hr.cells
  · simpa [report] using hr.free

lemma keeps_endBare (hr : Room l.toRegs) (hv : l.vcur = l.valUsed) :
    KeepsInv (env.endBare c l) := by
  have hlt : l.vcur < l.val.length := by rw [hv, hr.cells]; exact hr.free
  rw [EventEnv.endBare, writeCur_ok hlt, ok_bind]
  generalize (if l.squoted then AtomT.squote else AtomT.basic) = aty
  obtain ⟨hr', hu', -⟩ := report_frame
    (l := { l with val := l.val.set l.vcur nul, valUsed := l.valUsed + 1 })
    ⟨by simpa using hr.cells, Nat.lt_of_le_of_lt (Nat.zero_le _) hr.free⟩ aty
  dsimp only
  split_ifs with hh
  · exact keeps_save hr' hu' ⟨rfl, rfl, rfl⟩ _ _
  · exact keeps_afterBare hr' hu'

lemma keeps_state4 (h : env.Succeeds) (hi : BufferInv l.toRegs) (hs : l.state = .s4)
    (hq : l.esc = true → isEscapable c = true → 0 < l.valUsed) : KeepsInv (env.state4 c l) := by
  obtain ⟨hv, -⟩ := hi.cursor (by simp [hs, accumulates])
  rw [EventEnv.state4]
  split_ifs with he ha
  · rw [Bool.and_eq_true] at he
    rw [← bind_pure (overwrite c l)]
    refine (keeps_overwrite hi.room hv (hq he.1 he.2)).bind ?_
    rintro l' ⟨hr', hv', hs'⟩
    exact ⟨hr', by simp [TokenInv, hs', hs, hv']⟩
  · obtain ⟨v, a, k, hg, happ⟩ := storeEsc_ok h hi.room hv c
    rw [hg]
    exact ⟨.of_appended happ rfl rfl rfl, by simp [TokenInv, hs]⟩
  · exact keeps_endBare hi.room hv

lemma keeps_closingQuote {P : Regs → Prop} (h : env.Succeeds) (hr : Room l.toRegs)
    (hv : l.vcur = l.valUsed) :
    Keeps (fun l' => Room l'.toRegs ∧ l'.vcur = l'.valUsed ∧ l'.state = l.state) P
      (env.closingQuote l) := by
  rw [EventEnv.closingQuote]
  by_cases hq : l.squoted
  · obtain ⟨v, a, k, hg, happ⟩ := store_ok h hr hv dquote
    rw [if_pos hq, hg]
    exact ⟨.of_appended happ rfl rfl rfl, rfl, rfl⟩
  · rw [if_neg hq]
    exact ⟨hr, hv, rfl⟩

lemma keeps_endQuoted (h : env.Succeeds) (hr : Room l.toRegs) (hv : l.vcur = l.valUsed)
    (hs : l.state = .s6) : KeepsInv (env.endQuoted l) := by
  rw [EventEnv.endQuoted]
  refine (keeps_closingQuote h hr hv).bind ?_
  rintro l' ⟨hr', hv', hs'⟩
  have hlt : l'.vcur < l'.val.length := by rw [hv', hr'.cells]; exact hr'.free
  rw [writeCur_ok hlt, ok_bind]
  generalize (if l'.squoted then AtomT.squote else AtomT.dquote) = aty
  obtain ⟨hr'', hu'', hs''⟩ := report_frame
    (l := { l' with val := l'.val.set l'.vcur nul, valUsed := l'.valUsed + 1 })
    ⟨by simpa using hr'.cells, Nat.lt_of_le_of_lt (Nat.zero_le _) hr'.free⟩ aty
  dsimp only
  split_ifs with hh
  · exact keeps_save hr'' hu'' (by exact ⟨rfl, rfl, rfl⟩) _ _
  · have h6 := hs''.trans (hs'.trans hs)
    exact .between hr'' hu'' ⟨rfl, rfl, rfl⟩ (.inr (.inr (.inr (.inl h6))))

lemma keeps_state5Rest (h : env.Succeeds) (hr : Room l.toRegs) (hv : l.vcur = l.valUsed)
    (hs : l.state = .s5) : KeepsInv (env.state5Rest c l) := by
  rw [EventEnv.state5Rest]
  by_cases hc : c = dquote
  · rw [if_pos hc]
    exact keeps_endQuoted h (hr.same ⟨rfl, rfl, rfl⟩) hv rfl
  · rw [if_neg hc]
    obtain ⟨v, a, k, hg, happ⟩ := store_ok h hr hv c
    rw [hg]
    exact ⟨.of_appended happ rfl rfl rfl, by simp [TokenInv, hs]⟩

lemma keeps_state5 (h : env.Succeeds) (hi : BufferInv l.toRegs) (hs : l.state = .s5)
    (hq : l.esc = true → isEscapable c = true → 0 < l.valUsed) : KeepsInv (env.state5 c l) := by
  obtain ⟨hv, -⟩ := hi.cursor (by simp [hs, accumulates])
  rw [EventEnv.state5]
  split_ifs with he
  · rw [Bool.and_eq_true] at he
    refine (keeps_overwrite hi.room hv (hq he.1 he.2)).bind ?_
    rintro l' ⟨hr', hv', hs'⟩
    rw [Env.read]
    split
    · exact keeps_state5Rest h hr' hv' (hs'.trans hs)
    · simp [Post]
  · exact keeps_state5Rest h hi.room hv hs

lemma keeps_state7 (h : env.Succeeds) (hi : BufferInv l.toRegs) (hs : l.state = .s7) :
    KeepsInv (env.state7 c l) := by
  have hu : l.valUsed = 0 := by simpa [TokenInv, hs] using hi.token
  rw [EventEnv.state7]
  split_ifs with h1 h2
  · obtain ⟨v, a, k, hg, happ⟩ := store_ok h
      (l := { l with state := .s5, vcur := 0, t := l.t + 1 })
      (hi.room.same ⟨rfl, rfl, rfl⟩) hu.symm dquote
    rw [hg]
    exact ⟨.of_appended happ rfl rfl rfl, by simp [TokenInv]⟩
  · exact ⟨hi.room.same ⟨rfl, rfl, rfl⟩, by simp [TokenInv, hu]⟩
  · exact ⟨hi.room.same ⟨rfl, rfl, rfl⟩, by simp [TokenInv, hu]⟩

lemma keeps_endQuotedList (hr : Room l.toRegs) (hv : l.vcur = l.valUsed) (hs : l.state = .s1) :
    KeepsInv (env.endQuotedList l) := by
  have hlt : l.vcur < l.val.length := by rw [hv, hr.cells]; exact hr.free
  rw [EventEnv.endQuotedList, writeCur_ok hlt, ok_bind]
  obtain ⟨hr', hu', hs'⟩ := report_frame (l := { l with val := l.val.set l.vcur nul })
    ⟨by simpa using hr.cells, Nat.lt_of_le_of_lt (Nat.zero_le _) hr.free⟩ .squote
  dsimp only
  split_ifs with hh
  · exact keeps_save hr' hu' ⟨rfl, rfl, rfl⟩ _ _
  · exact .between hr' hu' ⟨rfl, rfl, rfl⟩ (.inl (hs'.trans hs))

lemma keeps_state9 (hr : Room l.toRegs) (hv : l.vcur = l.valUsed) : KeepsInv (env.state9 l) := by
  rw [EventEnv.state9]
  by_cases hq : l.qdepth = 0
  · rw [if_pos hq]
    exact keeps_endQuotedList (hr.same ⟨rfl, rfl, rfl⟩) hv rfl
  · rw [if_neg hq]
    exact ⟨hr.same ⟨rfl, rfl, rfl⟩, by simp [TokenInv, hv]⟩

lemma keeps_state8 (h : env.Succeeds) (hi : BufferInv l.toRegs) (hs : l.state = .s8) :
    KeepsInv (env.state8 c l) := by
  obtain ⟨hv, -⟩ := hi.cursor (by simp [hs, accumulates])
  obtain ⟨hb, hc, hstate⟩ := countParen_frame (l := l) (c := c)
  obtain ⟨v, a, k, hg, happ⟩ := storeEsc_ok h (hi.room.same hb)
    ((hc.trans hv).trans hb.2.2.symm) c
  have hr : ∀ l' : Regs, l'.val = v → l'.valAllocated = a →
      l'.valUsed = (countParen c l).valUsed + 1 → Room l' := fun l' => .of_appended happ
  rw [EventEnv.state8, hg, ok_bind]
  dsimp only
  split_ifs with h9
  · exact keeps_state9 (hr _ rfl rfl rfl) rfl
  · refine ⟨hr _ rfl rfl rfl, ?_⟩
    rcases hstate with h' | h' | h'
    · simp [TokenInv, h', hs]
    · exact absurd h' h9
    · simp [TokenInv, h']

lemma keeps_append {l' : Locals} (h : env.Succeeds) (hr : Room l.toRegs)
    (hb : SameBuffer l.toRegs l'.toRegs) (hv : l'.vcur = l.valUsed)
    (hs : l'.state = .s8 ∨ l'.state = .s10 ∨ l'.state = .s14) :
    KeepsInv (env.storeEsc c l' >>= fun l => .ok { l with t := l.t + 1 }) := by
  obtain ⟨v, a, k, hg, happ⟩ := storeEsc_ok h (hr.same hb) (hv.trans hb.2.2.symm) c
  rw [hg]
  refine ⟨.of_appended happ rfl rfl rfl, ?_⟩
  rcases hs with hs | hs | hs <;> simp [TokenInv, hs]

lemma keeps_state10 (h : env.Succeeds) (hi : BufferInv l.toRegs) (hs : l.state = .s10) :
    KeepsInv (env.state10 c l) := by
  obtain ⟨hv, -⟩ := hi.cursor (by simp [hs, accumulates])
  rw [EventEnv.state10]
  split_ifs
  · exact keeps_append h hi.room ⟨rfl, rfl, rfl⟩ hv (.inl rfl)
  · exact keeps_append h hi.room ⟨rfl, rfl, rfl⟩ hv (.inr (.inl hs))

lemma keeps_state12 (h : env.Succeeds) (hi : BufferInv l.toRegs) (hs : l.state = .s12) :
    KeepsInv (env.state12 c l) := by
  obtain ⟨hv, -⟩ := hi.cursor (by simp [hs, accumulates])
  rw [EventEnv.state12]
  by_cases hc : c = letterB
  · obtain ⟨v, a, k, hg, happ⟩ := storeEsc_ok h hi.room hv c
    rw [if_pos hc, hg]
    exact ⟨.of_appended happ rfl rfl rfl, by simp [TokenInv]⟩
  · rw [if_neg hc]
    exact ⟨hi.room.same ⟨rfl, rfl, rfl⟩, by simp [TokenInv, hv]⟩

lemma keeps_state13 (h : env.Succeeds) (hi : BufferInv l.toRegs) (hs : l.state = .s13) :
    KeepsInv (env.state13 c l) := by
  obtain ⟨hv, -⟩ := hi.cursor (by simp [hs, accumulates])
  rw [EventEnv.state13]
  by_cases hc : c = hash
  · obtain ⟨v, a, k, hg, happ⟩ := storeEsc_ok h hi.room hv c
    rw [if_pos hc, hg]
    exact ⟨⟨happ.cells, Nat.lt_of_le_of_lt (Nat.zero_le _) happ.free⟩, by simp [TokenInv]⟩
  · rw [if_neg hc]
    exact ⟨hi.room.same ⟨rfl, rfl, rfl⟩, by simp [TokenInv, hv]⟩

lemma keeps_endSize (hr : Room l.toRegs) (hv : l.vcur = l.valUsed) (hs : l.state = .s15) :
    KeepsInv (env.endSize l) := by
  have hlt : l.vcur < l.val.length := by rw [hv, hr.cells]; exact hr.free
  rw [EventEnv.endSize, writeCur_ok hlt, ok_bind]
  dsimp only
  split_ifs
  · exact ⟨⟨by simpa using hr.cells, hr.free⟩, by simp [TokenInv, hs]⟩
  · simp [Post]

lemma keeps_state14 (h : env.Succeeds) (hi : BufferInv l.toRegs) (hs : l.state = .s14) :
    KeepsInv (env.state14 c l) := by
  obtain ⟨hv, -⟩ := hi.cursor (by simp [hs, accumulates])
  rw [EventEnv.state14]
  by_cases hc : c = hash
  · rw [if_pos hc]
    exact keeps_endSize (hi.room.same ⟨rfl, rfl, rfl⟩) hv rfl
  · rw [if_neg hc]
    exact keeps_append h hi.room ⟨rfl, rfl, rfl⟩ hv (.inr (.inr hs))

lemma keeps_readBlob {P : Regs → Prop} :
    Keeps (fun l' => SameBuffer l.toRegs l'.toRegs ∧ l'.state = l.state) P (env.readBlob l) := by
  rw [EventEnv.readBlob, Env.read]
  cases env.buf[l.t]? with
  | none => simp [Post]
  | some c =>
    cases l.bindata with
    | none => simp [Post]
    | some data =>
      simp only [ok_bind]
      split_ifs
      · exact ⟨⟨rfl, rfl, rfl⟩, rfl⟩
      · simp [Post]

lemma keeps_endBlob (hr : Room l.toRegs) : BufferInv (EventEnv.endBlob l).toRegs := by
  refine ⟨⟨?_, ?_⟩, ?_⟩
  · simpa [EventEnv.endBlob] using hr.cells
  · simpa [EventEnv.endBlob] using Nat.lt_of_le_of_lt (Nat.zero_le _) hr.free
  · simp [TokenInv, EventEnv.endBlob]

lemma keeps_state15 (hi : BufferInv l.toRegs) (hs : l.state = .s15) :
    KeepsInv (env.state15 l) := by
  rw [EventEnv.state15]
  refine keeps_readBlob.bind ?_
  rintro l' ⟨hb, hs'⟩
  split_ifs
  · exact keeps_endBlob (hi.room.same hb)
  · exact ⟨hi.room.same hb, by simp [TokenInv, hs', hs]⟩

lemma keeps_finish (hi : BufferInv l.toRegs)
    (hexit : l.depth = 0 → 0 < l.elts → l.valUsed = 0) : KeepsInv (.error (env.finish l)) := by
  rw [EventEnv.finish]
  split_ifs with hd
  · exact keeps_save hi.room (hexit hd.1 hd.2) (by exact ⟨rfl, rfl, rfl⟩) _ _
  · split
    · simp [Post]
    · exact hi

lemma keeps_switch (h : env.Succeeds) (hi : BufferInv l.toRegs)
    (hq : l.state = .s4 ∨ l.state = .s5 → l.esc = true → isEscapable c = true → 0 < l.valUsed) :
    KeepsInv (env.switch c l) := by
  rw [EventEnv.switch]
  cases hs : l.state with
  | s1 => exact keeps_state1 h hi hs
  | s2 => exact keeps_state2 hi hs
  | s3 => exact keeps_state3 hi hs
  | s4 => exact keeps_state4 h hi hs (hq (.inl hs))
  | s5 => exact keeps_state5 h hi hs (hq (.inr hs))
  | s6 =>
    have hu : l.valUsed = 0 := by simpa [TokenInv, hs] using hi.token
    exact .between hi.room hu ⟨rfl, rfl, rfl⟩ (by simp)
  | s7 => exact keeps_state7 h hi hs
  | s8 => exact keeps_state8 h hi hs
  | s10 => exact keeps_state10 h hi hs
  | s11 => exact keeps_state11 hi hs
  | s12 => exact keeps_state12 h hi hs
  | s13 => exact keeps_state13 h hi hs
  | s14 => exact keeps_state14 h hi hs
  | s15 => exact keeps_state15 hi hs
  | s9 => simpa [TokenInv, hs] using hi.token
  | unknown => simpa [TokenInv, hs] using hi.token

lemma keeps_eparseHead (h : env.Succeeds) (hi : BufferInv l.toRegs)
    (hc : TidyRound env.toEnv l) : KeepsInv (env.eparseHead l) := by
  rw [EventEnv.eparseHead]
  by_cases h15 : l.state = .s15
  · rw [if_pos h15]
    split_ifs with ht
    · exact keeps_finish hi (hc.exit (.inl ht))
    · exact keeps_state15 hi h15
  · rw [if_neg h15, Env.read]
    cases hb : env.buf[l.t]? with
    | none => simp [Post]
    | some c =>
      simp only [ok_bind]
      split_ifs with hn
      · refine keeps_finish hi (hc.exit ?_)
        rcases hn with rfl | ht
        · exact .inr ⟨h15, hb⟩
        · exact .inl ht
      · exact keeps_switch h hi (hc.used hb)

end Round

end Sfsexp.Proofs.EventEnv
