import Sfsexp.Proofs.BufferBounds

/-!
# The counter outside of quoted lists

A round of either parser that neither reads a quoted list nor enters one leaves the depth counter of
quoted lists as it is, and so does its return.
-/

namespace Sfsexp.Proofs

open Sfsexp

/-- A piece of a round leaves the counter and the state alone. -/
structure Uncounted (l l' : Locals) : Prop where
  qdepth : l'.qdepth = l.qdepth
  state : l'.state = l.state

abbrev Passes (l : Locals) : Exec Locals → Prop := Post (Uncounted l) (fun _ => False) fun _ => True

/-- The states inside of a quoted list. -/
def quotes : State → Bool
  | .s8 | .s9 | .s10 => true
  | _ => false

/-- Outside of quoted lists, with the counter at `q`. -/
structure AtRest (q : Int) (l : Regs) : Prop where
  qdepth : l.qdepth = q
  outside : quotes l.state = false

abbrev Rests (q : Int) : Exec Locals → Prop :=
  Post (fun l => AtRest q l.toRegs) (fun r => AtRest q r.cc.toRegs) fun _ => True

section Pieces

variable {env : Env} {l l' l'' : Locals} {c : Byte} {q : Int}

lemma Uncounted.trans (h : Uncounted l l') (h' : Uncounted l' l'') : Uncounted l l'' :=
  ⟨h'.qdepth.trans h.qdepth, h'.state.trans h.state⟩

lemma passes_writeCur : Passes l (writeCur c l) := by
  rw [writeCur]
  split_ifs
  · exact ⟨rfl, rfl⟩
  · trivial

lemma passes_overwrite : Passes l (overwrite c l) := by
  rw [overwrite]
  split
  · trivial
  · split_ifs
    · exact ⟨rfl, rfl⟩
    · trivial

lemma passes_grow (h : env.Succeeds) {keep : Bool} :
    Post (fun l' => Uncounted l l' ∧ l'.esc = l.esc) (fun _ => False) (fun _ => True)
      (grow env keep l) := by
  rw [grow, if_pos (h _)]
  split_ifs <;> exact ⟨⟨rfl, rfl⟩, rfl⟩

lemma passes_store (h : env.Succeeds) : Passes l (store env c l) := by
  refine Post.bind passes_writeCur fun l₁ h₁ => ?_
  refine Post.mono (passes_grow h) (fun l₂ h₂ => ?_) fun _ h => h
  exact h₁.trans ⟨h₂.1.qdepth, h₂.1.state⟩

/-- A byte is stored, and is what the escape flag now tells of. -/
lemma passes_storeEsc (h : env.Succeeds) :
    Post (fun l' => Uncounted l l' ∧ l'.esc = (c == backslash)) (fun _ => False) (fun _ => True)
      (storeEsc env c l) := by
  refine Post.bind passes_writeCur fun l₁ h₁ => ?_
  refine Post.mono (passes_grow h) (fun l₂ h₂ => ?_) fun _ h => h
  exact ⟨h₁.trans ⟨h₂.1.qdepth, h₂.1.state⟩, h₂.2⟩

lemma passes_emit (h : env.Succeeds) {aty : AtomT} : Passes l (emit env aty l) := by
  rw [emit_ok h]
  exact ⟨rfl, rfl⟩

/-- What follows a piece that leaves the counter alone. -/
lemma Passes.rests {x : Exec Locals} {f : Locals → Exec Locals} (hx : Passes l x)
    (hf : ∀ l', Uncounted l l' → Rests q (f l')) : Rests q (x >>= f) :=
  (Post.mono hx (fun _ h => h) fun _ h => h.elim).bind hf

/-- A byte is stored outside of a quoted list. -/
lemma rests_storeEsc (h : env.Succeeds) {f : Locals → Exec Locals}
    (hf : ∀ l', Uncounted l l' → Rests q (f l')) : Rests q (storeEsc env c l >>= f) :=
  Passes.rests (Post.mono (passes_storeEsc h) (fun _ h => h.1) fun _ h => h) hf

end Pieces

section Rounds

variable {env : Env} {l : Locals} {c : Byte} {q : Int}

lemma rests_state1 (h : env.Succeeds) (hr : AtRest q l.toRegs) : Rests q (state1 env c l) := by
  obtain ⟨hq, hout⟩ := hr
  rw [state1]
  split_ifs
  · exact ⟨hq, hout⟩
  · exact ⟨hq, rfl⟩
  · rw [fire_eq]
    exact ⟨hq, rfl⟩
  · exact ⟨hq, rfl⟩
  · exact ⟨hq, rfl⟩
  · exact ⟨hq, rfl⟩
  · refine Passes.rests passes_writeCur fun l₁ h₁ => ?_
    refine Passes.rests (Post.mono (passes_grow h) (fun _ h => h.1) fun _ h => h) fun l₂ h₂ => ?_
    have hq₂ : l₂.qdepth = q := h₂.qdepth.trans (h₁.qdepth.trans hq)
    by_cases hb : c = hash ∧ l₂.mode = .inlineBinary
    · exact ⟨hq₂, by simp [hb, quotes]⟩
    · exact ⟨hq₂, by simp [hb, quotes]⟩

lemma passes_attachList (h : env.Succeeds) : Passes l (attachList env l) := by
  rw [attachList]
  split_ifs
  · rw [need_ok h, ok_bind, push_ok h]
    exact ⟨rfl, rfl⟩
  · cases hlink : link l with
    | none => trivial
    | some m =>
      rw [link_frame hlink]
      exact ⟨rfl, rfl⟩

lemma rests_state2 (h : env.Succeeds) (hq : l.qdepth = q) : Rests q (state2 env l) := by
  rw [state2, need_ok h, ok_bind]
  refine (passes_attachList h).rests fun l₁ h₁ => ?_
  rw [need_ok h, ok_bind, push_ok h]
  exact ⟨h₁.qdepth.trans hq, rfl⟩

lemma rests_closeLevel (hr : AtRest q l.toRegs) : Rests q (closeLevel l) := by
  obtain ⟨hq, hout⟩ := hr
  rw [closeLevel]
  split
  · trivial
  · split
    · exact ⟨hq, hout⟩
    · split
      · trivial
      · exact ⟨hq, hout⟩

lemma rests_returnTree (hq : l.qdepth = q) : Rests q (.error (returnTree l)) := by
  rw [returnTree]
  split
  · trivial
  · exact ⟨hq, rfl⟩

lemma rests_state3 (hr : AtRest q l.toRegs) : Rests q (state3 l) := by
  have hq := hr.qdepth
  rw [state3]
  split_ifs
  · exact ⟨hq, rfl⟩
  · have hclose : Rests q (closeLevel { l with t := l.t + 1, depth := l.depth - 1 }) :=
      rests_closeLevel ⟨hq, hr.outside⟩
    refine hclose.bind fun l₁ h₁ => ?_
    rw [fire_eq]
    dsimp only
    split_ifs
    · exact rests_returnTree h₁.qdepth
    · exact ⟨h₁.qdepth, rfl⟩

lemma rests_afterBare (hq : l.qdepth = q) : AtRest q (afterBare c l).toRegs := by
  rw [afterBare]
  split_ifs <;> exact ⟨hq, rfl⟩

lemma rests_endBare (h : env.Succeeds) (hq : l.qdepth = q) : Rests q (endBare env c l) := by
  rw [endBare]
  refine Passes.rests passes_writeCur fun l₁ h₁ => ?_
  simp only [need_ok h, ok_bind]
  refine (passes_emit h).rests fun l₂ h₂ => ?_
  have hq₂ : l₂.qdepth = q := h₂.qdepth.trans (h₁.qdepth.trans hq)
  cases hlink : link l₂ with
  | none => exact ⟨hq₂, rfl⟩
  | some m =>
    rw [link_frame hlink]
    exact rests_afterBare hq₂

lemma rests_state4 (h : env.Succeeds) (hr : AtRest q l.toRegs) : Rests q (state4 env c l) := by
  obtain ⟨hq, hout⟩ := hr
  have hstay : ∀ {l'}, Uncounted l l' → AtRest q l'.toRegs := fun h' =>
    ⟨h'.qdepth.trans hq, by rwa [h'.state]⟩
  rw [state4]
  split_ifs
  · exact Post.mono passes_overwrite (fun _ h' => hstay h') fun _ h' => h'.elim
  · refine rests_storeEsc h fun l₁ h₁ => ?_
    exact ⟨(hstay h₁).qdepth, (hstay h₁).outside⟩
  · exact rests_endBare h hq

lemma passes_closingQuote (h : env.Succeeds) : Passes l (closingQuote env l) := by
  rw [closingQuote]
  split_ifs
  · exact passes_store h
  · exact ⟨rfl, rfl⟩

lemma rests_endQuoted (h : env.Succeeds) (hq : l.qdepth = q) (hs : l.state = .s6) :
    Rests q (endQuoted env l) := by
  rw [endQuoted]
  refine (passes_closingQuote h).rests fun l₁ h₁ => ?_
  refine Passes.rests passes_writeCur fun l₂ h₂ => ?_
  have hs₂ : l₂.state = .s6 := h₂.state.trans (h₁.state.trans hs)
  simp only [need_ok h, ok_bind]
  refine (passes_emit h).rests fun l₃ h₃ => ?_
  have hq₃ : l₃.qdepth = q := h₃.qdepth.trans (h₂.qdepth.trans (h₁.qdepth.trans hq))
  have hs₃ : l₃.state = .s6 := h₃.state.trans hs₂
  cases hlink : link l₃ with
  | none => exact ⟨hq₃, rfl⟩
  | some m =>
    rw [link_frame hlink]
    exact ⟨hq₃, by simp [hs₃, quotes]⟩

lemma rests_state5Rest (h : env.Succeeds) (hq : l.qdepth = q) (hs : l.state = .s5) :
    Rests q (state5Rest env c l) := by
  rw [state5Rest]
  split_ifs
  · exact rests_endQuoted h hq rfl
  · refine (passes_store h).rests fun l₁ h₁ => ?_
    have hs₁ : l₁.state = .s5 := h₁.state.trans hs
    exact ⟨h₁.qdepth.trans hq, by simp [hs₁, quotes]⟩

lemma rests_state5 (h : env.Succeeds) (hq : l.qdepth = q) (hs : l.state = .s5) :
    Rests q (state5 env c l) := by
  rw [state5]
  split_ifs
  · refine Passes.rests passes_overwrite fun l₁ h₁ => ?_
    rw [Env.read]
    split
    · exact rests_state5Rest h (h₁.qdepth.trans hq) (h₁.state.trans hs)
    · trivial
  · exact rests_state5Rest h hq hs

lemma rests_endQuotedList (h : env.Succeeds) (hq : l.qdepth = q) (hs : l.state = .s1) :
    Rests q (endQuotedList env l) := by
  rw [endQuotedList]
  refine Passes.rests passes_writeCur fun l₁ h₁ => ?_
  have hs₁ : l₁.state = .s1 := h₁.state.trans hs
  simp only [need_ok h, ok_bind]
  refine (passes_emit h).rests fun l₂ h₂ => ?_
  have hq₂ : l₂.qdepth = q := h₂.qdepth.trans (h₁.qdepth.trans hq)
  have hs₂ : l₂.state = .s1 := h₂.state.trans hs₁
  cases hlink : link l₂ with
  | none => exact ⟨hq₂, rfl⟩
  | some m =>
    rw [link_frame hlink]
    exact ⟨hq₂, by simp [hs₂, quotes]⟩

lemma rests_state11 (hq : l.qdepth = q) : Rests q (state11 c l) := by
  rw [state11]
  by_cases hc : c = newline
  · exact ⟨hq, by simp [hc, quotes]⟩
  · exact ⟨hq, by simp [hc, quotes]⟩

lemma rests_state12 (h : env.Succeeds) (hq : l.qdepth = q) : Rests q (state12 env c l) := by
  rw [state12]
  split_ifs
  · exact rests_storeEsc h fun l₁ h₁ => ⟨h₁.qdepth.trans hq, rfl⟩
  · exact ⟨hq, rfl⟩

lemma rests_state13 (h : env.Succeeds) (hq : l.qdepth = q) : Rests q (state13 env c l) := by
  rw [state13]
  split_ifs
  · exact rests_storeEsc h fun l₁ h₁ => ⟨h₁.qdepth.trans hq, rfl⟩
  · exact ⟨hq, rfl⟩

lemma rests_endSize (h : env.Succeeds) (hr : AtRest q l.toRegs) : Rests q (endSize env l) := by
  rw [endSize]
  refine Passes.rests passes_writeCur fun l₁ h₁ => ?_
  have hrest : AtRest q l₁.toRegs :=
    ⟨h₁.qdepth.trans hr.qdepth, h₁.state ▸ hr.outside⟩
  dsimp only
  split_ifs
  · rw [need_ok h]
    exact ⟨hrest.qdepth, hrest.outside⟩
  · exact ⟨hrest.qdepth, hrest.outside⟩

lemma rests_state14 (h : env.Succeeds) (hr : AtRest q l.toRegs) : Rests q (state14 env c l) := by
  rw [state14]
  split_ifs
  · exact rests_endSize h ⟨hr.qdepth, rfl⟩
  · refine rests_storeEsc h fun l₁ h₁ => ?_
    exact ⟨h₁.qdepth.trans hr.qdepth, h₁.state ▸ hr.outside⟩

lemma passes_readBlob : Passes l (readBlob env l) := by
  rw [readBlob]
  split_ifs
  · rw [Env.read]
    cases env.buf[l.t]? with
    | none => trivial
    | some c =>
      cases l.bindata with
      | none => trivial
      | some data =>
        simp only [ok_bind]
        split_ifs
        · exact ⟨rfl, rfl⟩
        · trivial
  · exact ⟨rfl, rfl⟩

lemma rests_endBlob (h : env.Succeeds) (hq : l.qdepth = q) : Rests q (endBlob env l) := by
  rw [endBlob, need_ok h, ok_bind]
  simp only [fire_eq]
  rw [link]
  split <;> exact ⟨hq, rfl⟩

lemma rests_state15 (h : env.Succeeds) (hr : AtRest q l.toRegs) : Rests q (state15 env l) := by
  rw [state15]
  refine passes_readBlob.rests fun l₁ h₁ => ?_
  split_ifs
  · exact rests_endBlob h (h₁.qdepth.trans hr.qdepth)
  · exact ⟨h₁.qdepth.trans hr.qdepth, h₁.state ▸ hr.outside⟩

/-- The code after the loop, outside of a quoted list. -/
lemma rests_finish (hr : AtRest q l.toRegs) : Rests q (.error (finish env l)) := by
  rw [finish]
  split_ifs
  · exact rests_returnTree hr.qdepth
  · split
    · trivial
    · exact hr

end Rounds

namespace EventEnv

open Sfsexp.EventEnv

variable {env : EventEnv} {l : Locals} {c : Byte} {q : Int}

lemma passes_grow (h : env.Succeeds) :
    Post (fun l' => Uncounted l l' ∧ l'.esc = l.esc) (fun _ => False) (fun _ => True)
      (env.grow l) := by
  rw [EventEnv.grow, if_pos (h _)]
  split_ifs <;> exact ⟨⟨rfl, rfl⟩, rfl⟩

lemma passes_store (h : env.Succeeds) : Passes l (env.store c l) := by
  refine Post.bind passes_writeCur fun l₁ h₁ => ?_
  refine Post.mono (passes_grow h) (fun l₂ h₂ => ?_) fun _ h => h
  exact h₁.trans ⟨h₂.1.qdepth, h₂.1.state⟩

lemma passes_storeEsc (h : env.Succeeds) :
    Post (fun l' => Uncounted l l' ∧ l'.esc = (c == backslash)) (fun _ => False) (fun _ => True)
      (env.storeEsc c l) := by
  refine Post.bind passes_writeCur fun l₁ h₁ => ?_
  refine Post.mono (passes_grow h) (fun l₂ h₂ => ?_) fun _ h => h
  exact ⟨h₁.trans ⟨h₂.1.qdepth, h₂.1.state⟩, h₂.2⟩

lemma rests_storeEsc (h : env.Succeeds) {f : Locals → Exec Locals}
    (hf : ∀ l', Uncounted l l' → Rests q (f l')) : Rests q (env.storeEsc c l >>= f) :=
  Passes.rests (Post.mono (passes_storeEsc h) (fun _ h => h.1) fun _ h => h) hf

/-- A report touches neither the counter nor the state. -/
lemma report_uncounted (aty : AtomT) : Uncounted l (report aty l) := by
  rw [report, fire_eq]
  exact ⟨rfl, rfl⟩

lemma rests_save (hq : l.qdepth = q) (err : ErrCode) (squoted : Bool) :
    Rests q (.error (env.save l err squoted)) :=
  ⟨hq, rfl⟩

lemma rests_state1 (h : env.Succeeds) (hr : AtRest q l.toRegs) : Rests q (env.state1 c l) := by
  obtain ⟨hq, hout⟩ := hr
  rw [EventEnv.state1]
  split_ifs
  · exact ⟨hq, hout⟩
  · exact ⟨hq, rfl⟩
  · rw [fire_eq]
    exact ⟨hq, rfl⟩
  · exact ⟨hq, rfl⟩
  · exact ⟨hq, rfl⟩
  · exact ⟨hq, rfl⟩
  · refine rests_storeEsc h fun l₁ h₁ => ?_
    have hq₁ : l₁.qdepth = q := h₁.qdepth.trans hq
    by_cases hb : c = hash ∧ l₁.mode = .inlineBinary
    · exact ⟨hq₁, by simp [hb, quotes]⟩
    · exact ⟨hq₁, by simp [hb, quotes]⟩

lemma rests_state3 (hq : l.qdepth = q) : Rests q (env.state3 l) := by
  rw [EventEnv.state3]
  split_ifs
  · exact rests_save hq _ _
  · rw [fire_eq]
    dsimp only
    split_ifs
    · exact rests_save (by exact hq) _ _
    · exact ⟨hq, rfl⟩

lemma rests_endBare (hq : l.qdepth = q) : Rests q (env.endBare c l) := by
  rw [EventEnv.endBare]
  refine Passes.rests passes_writeCur fun l₁ h₁ => ?_
  generalize (if l₁.squoted then AtomT.squote else AtomT.basic) = aty
  have h₂ := report_uncounted (l := { l₁ with valUsed := l₁.valUsed + 1 }) aty
  have hq₂ := h₂.qdepth.trans (h₁.qdepth.trans hq)
  dsimp only
  split_ifs
  · exact rests_save hq₂ _ _
  · exact rests_afterBare hq₂

lemma rests_state4 (h : env.Succeeds) (hr : AtRest q l.toRegs) : Rests q (env.state4 c l) := by
  obtain ⟨hq, hout⟩ := hr
  have hstay : ∀ {l'}, Uncounted l l' → AtRest q l'.toRegs := fun h' =>
    ⟨h'.qdepth.trans hq, by rwa [h'.state]⟩
  rw [EventEnv.state4]
  split_ifs
  · exact Post.mono passes_overwrite (fun _ h' => hstay h') fun _ h' => h'.elim
  · refine rests_storeEsc h fun l₁ h₁ => ?_
    exact ⟨(hstay h₁).qdepth, (hstay h₁).outside⟩
  · exact rests_endBare hq

lemma passes_closingQuote (h : env.Succeeds) : Passes l (env.closingQuote l) := by
  rw [EventEnv.closingQuote]
  split_ifs
  · exact passes_store h
  · exact ⟨rfl, rfl⟩

lemma rests_endQuoted (h : env.Succeeds) (hq : l.qdepth = q) (hs : l.state = .s6) :
    Rests q (env.endQuoted l) := by
  rw [EventEnv.endQuoted]
  refine (passes_closingQuote h).rests fun l₁ h₁ => ?_
  refine Passes.rests passes_writeCur fun l₂ h₂ => ?_
  generalize (if l₂.squoted then AtomT.squote else AtomT.dquote) = aty
  have h₃ := report_uncounted (l := { l₂ with valUsed := l₂.valUsed + 1 }) aty
  have hq₃ := h₃.qdepth.trans (h₂.qdepth.trans (h₁.qdepth.trans hq))
  have hs₃ := h₃.state.trans (h₂.state.trans (h₁.state.trans hs))
  dsimp only
  split_ifs
  · exact rests_save (by exact hq₃) _ _
  · exact ⟨hq₃, (congrArg quotes hs₃).trans rfl⟩

lemma rests_state5Rest (h : env.Succeeds) (hq : l.qdepth = q) (hs : l.state = .s5) :
    Rests q (env.state5Rest c l) := by
  rw [EventEnv.state5Rest]
  split_ifs
  · exact rests_endQuoted h hq rfl
  · refine (passes_store h).rests fun l₁ h₁ => ?_
    have hs₁ : l₁.state = .s5 := h₁.state.trans hs
    exact ⟨h₁.qdepth.trans hq, by simp [hs₁, quotes]⟩

lemma rests_state5 (h : env.Succeeds) (hq : l.qdepth = q) (hs : l.state = .s5) :
    Rests q (env.state5 c l) := by
  rw [EventEnv.state5]
  split_ifs
  · refine Passes.rests passes_overwrite fun l₁ h₁ => ?_
    rw [Env.read]
    split
    · exact rests_state5Rest h (h₁.qdepth.trans hq) (h₁.state.trans hs)
    · trivial
  · exact rests_state5Rest h hq hs

lemma rests_endQuotedList (hq : l.qdepth = q) (hs : l.state = .s1) :
    Rests q (env.endQuotedList l) := by
  rw [EventEnv.endQuotedList]
  refine Passes.rests passes_writeCur fun l₁ h₁ => ?_
  have h₂ := report_uncounted (l := l₁) .squote
  have hq₂ := h₂.qdepth.trans (h₁.qdepth.trans hq)
  have hs₂ := h₂.state.trans (h₁.state.trans hs)
  dsimp only
  split_ifs
  · exact rests_save hq₂ _ _
  · exact ⟨hq₂, (congrArg quotes hs₂).trans rfl⟩

lemma rests_state12 (h : env.Succeeds) (hq : l.qdepth = q) : Rests q (env.state12 c l) := by
  rw [EventEnv.state12]
  split_ifs
  · exact rests_storeEsc h fun l₁ h₁ => ⟨h₁.qdepth.trans hq, rfl⟩
  · exact ⟨hq, rfl⟩

lemma rests_state13 (h : env.Succeeds) (hq : l.qdepth = q) : Rests q (env.state13 c l) := by
  rw [EventEnv.state13]
  split_ifs
  · exact rests_storeEsc h fun l₁ h₁ => ⟨h₁.qdepth.trans hq, rfl⟩
  · exact ⟨hq, rfl⟩

lemma rests_endSize (hr : AtRest q l.toRegs) : Rests q (env.endSize l) := by
  rw [EventEnv.endSize]
  refine Passes.rests passes_writeCur fun l₁ h₁ => ?_
  dsimp only
  split_ifs
  · exact ⟨h₁.qdepth.trans hr.qdepth, h₁.state ▸ hr.outside⟩
  · trivial

lemma rests_state14 (h : env.Succeeds) (hr : AtRest q l.toRegs) : Rests q (env.state14 c l) := by
  rw [EventEnv.state14]
  split_ifs
  · exact rests_endSize ⟨hr.qdepth, rfl⟩
  · refine rests_storeEsc h fun l₁ h₁ => ?_
    exact ⟨h₁.qdepth.trans hr.qdepth, h₁.state ▸ hr.outside⟩

lemma passes_readBlob : Passes l (env.readBlob l) := by
  rw [EventEnv.readBlob, Env.read]
  cases env.buf[l.t]? with
  | none => trivial
  | some c =>
    cases l.bindata with
    | none => trivial
    | some data =>
      simp only [ok_bind]
      split_ifs
      · exact ⟨rfl, rfl⟩
      · trivial

lemma rests_endBlob (hq : l.qdepth = q) : AtRest q (EventEnv.endBlob l).toRegs := by
  rw [EventEnv.endBlob, fire_eq]
  exact ⟨hq, rfl⟩

lemma rests_state15 (hr : AtRest q l.toRegs) : Rests q (env.state15 l) := by
  rw [EventEnv.state15]
  refine passes_readBlob.rests fun l₁ h₁ => ?_
  split_ifs
  · exact rests_endBlob (h₁.qdepth.trans hr.qdepth)
  · exact ⟨h₁.qdepth.trans hr.qdepth, h₁.state ▸ hr.outside⟩

lemma rests_finish (hr : AtRest q l.toRegs) : Rests q (.error (env.finish l)) := by
  rw [EventEnv.finish]
  split_ifs
  · exact rests_save (by exact hr.qdepth) _ _
  · split
    · trivial
    · exact hr

end EventEnv

end Sfsexp.Proofs
