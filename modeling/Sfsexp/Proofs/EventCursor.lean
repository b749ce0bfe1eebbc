import Sfsexp.Proofs.Cursor

/-!
# How far a round of `eparse_sexp` moves the cursor
-/

namespace Sfsexp.Proofs.EventEnv

open Sfsexp Sfsexp.EventEnv

section Round

variable {env : EventEnv} {l : Locals} {c : Byte}

lemma still_grow : Still l (env.grow l) := by
  rw [EventEnv.grow]
  split_ifs
  · exact ⟨rfl, rfl⟩
  · trivial
  · exact ⟨rfl, rfl⟩

lemma still_store : Still l (env.store c l) :=
  Still.bind still_writeCur fun _ _ _ => still_grow

lemma still_storeEsc : Still l (env.storeEsc c l) :=
  Still.bind still_writeCur fun _ _ _ => still_grow

lemma still_closingQuote : Still l (env.closingQuote l) := by
  rw [EventEnv.closingQuote]
  split_ifs
  · exact still_store
  · exact still_ok rfl rfl

@[simp] lemma report_t (aty : AtomT) : (report aty l).t = l.t := by simp [report]

@[simp] lemma report_state (aty : AtomT) : (report aty l).state = l.state := by simp [report]

/-- The returns inside the loop reset the state. -/
lemma moves_save {l₀ : Locals} {d : Nat} (hlow : l₀.t ≤ l.t) (hhigh : l.t ≤ l₀.t + d)
    (err : ErrCode) (squoted : Bool) : Moves l₀ d (.error (env.save l err squoted)) :=
  ⟨⟨hlow, hhigh, sane_of_tame rfl⟩, marked_of_some rfl⟩

lemma moves_state1 (hs : l.state = .s1) : Moves l 1 (env.state1 c l) := by
  rw [EventEnv.state1]
  split_ifs
  · exact moves_step rfl (by simp [hs])
  · exact moves_step rfl (by simp)
  · exact moves_step (by simp) (by simp)
  · exact moves_down rfl (by simp) (by simp [hs])
  · exact moves_step rfl (by simp)
  · exact moves_step rfl (by simp)
  · refine still_storeEsc.moves (by simp) (by simp) (by simp [hs]) ?_
    intro l' ht' _
    refine moves_step (by simp [ht']) ?_
    dsimp only
    split_ifs <;> simp

lemma moves_state3 : Moves l 1 (env.state3 l) := by
  rw [EventEnv.state3]
  split_ifs
  · exact moves_save (Nat.le_refl _) (Nat.le_succ _) _ _
  · dsimp only
    split_ifs
    · exact moves_save (by simp) (by simp) _ _
    · exact moves_step (by simp) (by simp)

lemma moves_endBare (hs : l.state = .s4) : Moves l 1 (env.endBare c l) := by
  rw [EventEnv.endBare]
  refine still_writeCur.moves (Nat.le_refl _) (Nat.le_succ _) (by simp [hs]) ?_
  intro l' ht' _
  generalize (if l'.squoted then AtomT.squote else AtomT.basic) = aty
  dsimp only
  split_ifs
  · exact moves_save (by simp [ht']) (by simp [ht']) _ _
  · exact moves_afterBare (by simp [ht']) hs

lemma moves_state4 (hs : l.state = .s4) : Moves l 1 (env.state4 c l) := by
  rw [EventEnv.state4]
  split_ifs
  · exact moves_overwrite hs
  · refine still_storeEsc.moves (Nat.le_refl _) (Nat.le_succ _) (by simp [hs]) ?_
    intro l' ht' hs'
    exact moves_step (by simp [ht']) (by simp [hs', hs])
  · exact moves_endBare hs

lemma moves_endQuoted {l₀ : Locals} {d : Nat} (hlow : l₀.t ≤ l.t) (hhigh : l.t + 1 ≤ l₀.t + d)
    (hs : l.state = .s6) : Moves l₀ d (env.endQuoted l) := by
  rw [EventEnv.endQuoted]
  refine still_closingQuote.moves hlow (by omega) (by simp [hs]) ?_
  intro l₁ ht₁ hs₁
  refine still_writeCur.moves (by omega) (by omega) (by simp [hs₁, hs]) ?_
  intro l₂ ht₂ hs₂
  have ht : l₂.t = l.t := ht₂.trans ht₁
  have h6 : l₂.state = .s6 := by simp [hs₂, hs₁, hs]
  generalize (if l₂.squoted then AtomT.squote else AtomT.dquote) = aty
  dsimp only
  split_ifs
  · exact moves_save (by simp; omega) (by simp; omega) _ _
  · exact ⟨⟨by simp; omega, by simp; omega, sane_of_tame (by simp [h6])⟩, by simp; omega⟩

lemma moves_state5Rest {l₀ : Locals} {d : Nat} (hlow : l₀.t ≤ l.t) (hhigh : l.t + 1 ≤ l₀.t + d)
    (hs : l.state = .s5) : Moves l₀ d (env.state5Rest c l) := by
  rw [EventEnv.state5Rest]
  split_ifs
  · exact moves_endQuoted hlow hhigh rfl
  · refine still_store.moves hlow (by omega) (by simp [hs]) ?_
    intro l' ht' hs'
    exact ⟨⟨by simp; omega, by simp; omega, sane_of_tame (by simp [hs', hs])⟩, by simp; omega⟩

lemma moves_state5 (hs : l.state = .s5) : Moves l (pairSteps l c) (env.state5 c l) := by
  rw [EventEnv.state5]
  split_ifs with he
  · rw [Bool.and_eq_true] at he
    have hd : pairSteps l c = 2 := if_pos ⟨hs, he.1, he.2⟩
    rw [hd, overwrite]
    split
    · trivial
    · split_ifs
      · rw [ok_bind, Env.read]
        split
        · exact moves_state5Rest (by simp) (by simp) hs
        · trivial
      · trivial
  · have hd : pairSteps l c = 1 := if_neg fun h => he (by simp [h.2.1, h.2.2])
    rw [hd]
    exact moves_state5Rest (Nat.le_refl _) (Nat.le_refl _) hs

lemma moves_state7 (hs : l.state = .s7) : Moves l 1 (env.state7 c l) := by
  rw [EventEnv.state7]
  split_ifs
  · refine still_store.moves (by simp) (by simp) (by simp) ?_
    intro l' ht' hs'
    exact moves_step (by simp [ht']) (by simp [hs'])
  · exact moves_down rfl (by simp) (by simp [hs])
  · exact moves_down rfl (by simp) (by simp [hs])

lemma moves_state9 {l₀ : Locals} (hlow : l₀.t ≤ l.t) (hhigh : l.t ≤ l₀.t + 1)
    (hr : l.t = l₀.t → l₀.state = .s9) : Moves l₀ 1 (env.state9 l) := by
  have hdown : ∀ s : State, rank s < rank .s9 → l.t = l₀.t → rank s < rank l₀.state :=
    fun s hlt ht => by rwa [hr ht]
  rw [EventEnv.state9]
  split_ifs
  · rw [EventEnv.endQuotedList]
    refine still_writeCur.moves hlow hhigh (by simp) ?_
    intro l' ht' hs'
    have ht : l'.t = l.t := ht'
    have h1 : l'.state = .s1 := hs'
    dsimp only
    split_ifs
    · exact moves_save (by simp [ht, hlow]) (by simp [ht, hhigh]) _ _
    · refine ⟨⟨by simp [ht, hlow], by simp [ht, hhigh], sane_of_tame (by simp [h1])⟩, fun h => ?_⟩
      rw [report_state, h1]
      exact hdown .s1 (by decide) (by simpa [ht] using h)
  · exact ⟨⟨hlow, hhigh, sane_of_tame rfl⟩, hdown .s8 (by decide)⟩

lemma moves_state8 (hs : l.state = .s8) : Moves l 1 (env.state8 c l) := by
  have htame : tame (countParen c l).state = true := countParen_tame hs
  rw [EventEnv.state8]
  refine still_storeEsc.moves (by simp [countParen_t]) (by simp [countParen_t]) htame ?_
  intro l' ht' hs'
  have ht : l'.t = l.t := ht'.trans countParen_t
  dsimp only
  split_ifs
  · exact moves_state9 (by simp [ht]) (by simp [ht]) (by simp [ht])
  · exact moves_step (by simp [ht]) (by simpa [hs'] using htame)

lemma moves_state10 (hs : l.state = .s10) : Moves l 1 (env.state10 c l) := by
  rw [EventEnv.state10]
  split_ifs
  all_goals
    refine still_storeEsc.moves (by simp) (by simp) (by simp [hs]) ?_
    intro l' ht' hs'
    exact moves_step (by simp [ht']) (by simp [hs', hs])

lemma moves_state12 (hs : l.state = .s12) : Moves l 1 (env.state12 c l) := by
  rw [EventEnv.state12]
  split_ifs
  · refine still_storeEsc.moves (by simp) (by simp) (by simp [hs]) ?_
    intro l' ht' _
    exact moves_step (by simp [ht']) (by simp)
  · exact moves_down rfl (by simp) (by simp [hs])

lemma moves_state13 (hs : l.state = .s13) : Moves l 1 (env.state13 c l) := by
  rw [EventEnv.state13]
  split_ifs
  · refine still_storeEsc.moves (by simp) (by simp) (by simp [hs]) ?_
    intro l' ht' _
    exact moves_step (by simp [ht']) (by simp)
  · exact moves_down rfl (by simp) (by simp [hs])

lemma moves_endSize {l₀ : Locals} (ht : l.t = l₀.t + 1) (hs : l.state = .s15) :
    Moves l₀ 1 (env.endSize l) := by
  rw [EventEnv.endSize, writeCur]
  split_ifs
  · rw [ok_bind]
    dsimp only
    split_ifs
    · exact ⟨⟨by simp [ht], by simp [ht], by simp [Sane, hs]⟩, by simp [ht]⟩
    · trivial
  · trivial

lemma moves_state14 (hs : l.state = .s14) : Moves l 1 (env.state14 c l) := by
  rw [EventEnv.state14]
  split_ifs
  · exact moves_endSize rfl rfl
  · refine still_storeEsc.moves (by simp) (by simp) (by simp [hs]) ?_
    intro l' ht' hs'
    exact moves_step (by simp [ht']) (by simp [hs', hs])

/-- A byte is taken in every round. -/
lemma readBlob_moves (hsane : Sane l.toRegs) (hs : l.state = .s15) :
    Post (fun l' => l'.t = l.t + 1 ∧ l'.t ≤ l.t + blobSteps env.toEnv l ∧ Sane l'.toRegs)
      (fun _ => False) (fun _ => True) (env.readBlob l) := by
  rw [EventEnv.readBlob, Env.read]
  cases hb : env.buf[l.t]? with
  | none => trivial
  | some c =>
    obtain ⟨hlt, -⟩ := List.getElem?_eq_some_iff.mp hb
    cases hd : l.bindata with
    | none => trivial
    | some data =>
      have hlen : data.length = l.binexpected := (hsane.2 hs).2 data hd
      simp only [ok_bind]
      split_ifs
      · refine ⟨rfl, by simp [blobSteps, hlt], ?_⟩
        simp [Sane, hs, hlen]
        omega
      · trivial

lemma moves_state15 (hsane : Sane l.toRegs) (hs : l.state = .s15) :
    Moves l (blobSteps env.toEnv l) (env.state15 l) := by
  rw [EventEnv.state15]
  refine Post.bind ((readBlob_moves hsane hs).mono (fun _ h => h) fun _ h => h.elim) ?_
  rintro l' ⟨ht, hhigh, hsane'⟩
  split_ifs with hb
  · have ht' : (EventEnv.endBlob l').t = l'.t := by simp [EventEnv.endBlob]
    exact ⟨⟨by omega, by omega, sane_of_tame rfl⟩, by omega⟩
  · exact ⟨⟨by omega, hhigh, hsane'⟩, by omega⟩

lemma moves_finish (hsane : Sane l.toRegs) : Moves l 0 (.error (env.finish l)) := by
  rw [EventEnv.finish]
  split_ifs
  · exact moves_save (by exact Nat.le_refl _) (by exact Nat.le_refl _) _ _
  · split
    · trivial
    · refine ⟨⟨Nat.le_refl _, Nat.le_refl _, hsane⟩, ?_⟩
      intro p hp
      dsimp only [give] at hp
      split_ifs at hp
      exact (Option.some.inj hp).symm

lemma moves_switch (hs15 : l.state ≠ .s15) (hsane : Sane l.toRegs) :
    Moves l (pairSteps l c) (env.switch c l) := by
  have hone : l.state ≠ .s5 → pairSteps l c = 1 := fun h => if_neg fun h' => h h'.1
  rw [EventEnv.switch]
  cases hs : l.state with
  | s5 => exact moves_state5 hs
  | s1 => exact hone (by simp [hs]) ▸ moves_state1 hs
  | s2 => exact hone (by simp [hs]) ▸ moves_down rfl rfl (by simp [hs, EventEnv.state2])
  | s3 => exact hone (by simp [hs]) ▸ moves_state3
  | s4 => exact hone (by simp [hs]) ▸ moves_state4 hs
  | s6 => exact hone (by simp [hs]) ▸ moves_down rfl rfl (by simp [hs])
  | s7 => exact hone (by simp [hs]) ▸ moves_state7 hs
  | s8 => exact hone (by simp [hs]) ▸ moves_state8 hs
  | s9 => exact hone (by simp [hs]) ▸ moves_state9 (by simp) (by simp) fun _ => hs
  | s10 => exact hone (by simp [hs]) ▸ moves_state10 hs
  | s11 => exact hone (by simp [hs]) ▸ moves_state11
  | s12 => exact hone (by simp [hs]) ▸ moves_state12 hs
  | s13 => exact hone (by simp [hs]) ▸ moves_state13 hs
  | s14 => exact hone (by simp [hs]) ▸ moves_state14 hs
  | s15 => exact absurd hs hs15
  | unknown => exact absurd hs hsane.1

lemma moves_eparseHead (hsane : Sane l.toRegs) :
    Moves l (headSteps env.toEnv l) (env.eparseHead l) :=
  moves_head (moves_finish hsane) (moves_state15 hsane) fun _ h15 => moves_switch h15 hsane

end Round

end Sfsexp.Proofs.EventEnv
