import Sfsexp.Proofs.LimitedParser

/-!
# The bytes of a blob, and the mode

The parser holds bytes of a blob only while it reads them. Every other state leaves `bindata` at
`NULL`, so that the next blob does not drop a block. No state changes the mode.
-/

namespace Sfsexp.Proofs

open Sfsexp Spec

/-- The piece keeps what is known of the bytes of a blob and of the mode. -/
abbrev Sets (P : Option (List Byte) → ParserMode → Prop) : Exec Locals → Prop :=
  Post (fun l => P l.bindata l.mode) (fun r => P r.cc.bindata r.cc.mode) fun _ => True

section Sets

variable {P : Option (List Byte) → ParserMode → Prop} {env : Env} {l : Locals} {c : Byte}

lemma sets_writeCur (hl : P l.bindata l.mode) : Sets P (writeCur c l) := by
  rw [writeCur]
  split_ifs
  · exact hl
  · exact trivial

lemma sets_overwrite (hl : P l.bindata l.mode) : Sets P (overwrite c l) := by
  rw [overwrite]
  split
  · exact trivial
  · split_ifs
    · exact hl
    · exact trivial

lemma sets_grow (keep : Bool) (hl : P l.bindata l.mode) : Sets P (grow env keep l) := by
  rw [grow]
  split_ifs
  · exact hl
  · exact hl
  · exact hl
  · exact hl

lemma sets_store (hl : P l.bindata l.mode) : Sets P (store env c l) :=
  Post.bind (sets_writeCur hl) fun _ hl' => sets_grow true hl'

lemma sets_storeEsc (hl : P l.bindata l.mode) : Sets P (storeEsc env c l) :=
  Post.bind (sets_writeCur hl) fun _ hl' => sets_grow true hl'

lemma sets_need (hl : P l.bindata l.mode) : Sets P (need env l) := by
  rw [need]
  split_ifs
  · exact hl
  · exact hl

lemma sets_emit (aty : AtomT) (hl : P l.bindata l.mode) : Sets P (emit env aty l) := by
  rw [emit, fire_eq]
  dsimp only
  split_ifs
  · exact hl
  · exact hl

/-- The end of an atom. -/
lemma sets_endAtom (aty : Locals → AtomT) (before done next : Locals → Locals)
    (hl : P l.bindata l.mode)
    (hbefore : ∀ l : Locals, P l.bindata l.mode → P (before l).bindata (before l).mode)
    (hdone : ∀ l : Locals, P l.bindata l.mode → P (done l).bindata (done l).mode)
    (hnext : ∀ l : Locals, P l.bindata l.mode → P (next l).bindata (next l).mode) :
    Sets P (need env l >>= fun l => emit env (aty l) (before l) >>= fun l =>
      match link l with
      | none => .error ((done l).save .ok l.sx)
      | some l => .ok (next l)) := by
  refine Post.bind (sets_need hl) fun l₁ hl₁ => Post.bind (sets_emit _ (hbefore l₁ hl₁)) ?_
  intro l₂ hl₂
  cases hlink : link l₂ with
  | none => exact hdone l₂ hl₂
  | some l₃ =>
    apply hnext
    rw [link_frame hlink]
    exact hl₂

lemma sets_endBare (hl : P l.bindata l.mode) : Sets P (endBare env c l) := by
  refine Post.bind (sets_writeCur hl) fun l₁ hl₁ => ?_
  apply @sets_endAtom P env { l₁ with valUsed := l₁.valUsed + 1 } _ id
    (fun l => { l with squoted := false, state := .s1, esc := false }) (afterBare c) hl₁
  · exact fun l h => h
  · exact fun l h => h
  · intro l h
    rw [afterBare]
    split_ifs
    · exact h
    · exact h
    · exact h

lemma sets_endQuoted (hl : P l.bindata l.mode) : Sets P (endQuoted env l) := by
  have hquote : Sets P (closingQuote env l) := by
    rw [closingQuote]
    split_ifs
    · exact sets_store hl
    · exact hl
  refine Post.bind hquote fun l₁ hl₁ => Post.bind (sets_writeCur hl₁) fun l₂ hl₂ => ?_
  exact @sets_endAtom P env { l₂ with valUsed := l₂.valUsed + 1 } _
    (fun l => { l with squoted := false })
    (fun l => { l with t := l.t + 1, squoted := false, esc := false, state := .s1 })
    (fun l => { l with t := l.t + 1 }) hl₂ (fun l h => h) (fun l h => h) fun l h => h

lemma sets_endQuotedList (hl : P l.bindata l.mode) : Sets P (endQuotedList env l) := by
  refine Post.bind (sets_writeCur hl) fun l₁ hl₁ => ?_
  exact sets_endAtom _ id (fun l => { l with squoted := false, esc := false, state := .s1 }) id hl₁
    (fun l h => h) (fun l h => h) fun l h => h

lemma sets_state1 (hl : P l.bindata l.mode) : Sets P (state1 env c l) := by
  rw [state1]
  split_ifs
  · exact hl
  · exact hl
  · rw [fire_eq]
    exact hl
  · exact hl
  · exact hl
  · exact hl
  · exact Post.bind (sets_writeCur hl) fun l₁ hl₁ =>
      Post.bind (sets_grow false hl₁) fun l₂ hl₂ => hl₂

lemma sets_state2 (hl : P l.bindata l.mode) : Sets P (state2 env l) := by
  have hpush : ∀ (data : List Sexp) (l : Locals), P l.bindata l.mode →
      P (push env data l).bindata (push env data l).mode := by
    intro data l hl
    rw [push]
    split_ifs
    · exact hl
    · exact hl
    · exact hl
  have hattach : ∀ l : Locals, P l.bindata l.mode → Sets P (attachList env l) := by
    intro l hl
    rw [attachList]
    split_ifs
    · exact Post.bind (sets_need hl) fun l₁ hl₁ => hpush _ l₁ hl₁
    · cases hlink : link l with
      | none => exact trivial
      | some l₁ =>
        change P l₁.bindata l₁.mode
        rw [link_frame hlink]
        exact hl
  refine Post.bind (x := need env _) (sets_need hl) fun l₁ hl₁ => Post.bind (hattach _ hl₁) ?_
  exact fun l₂ hl₂ => Post.bind (sets_need hl₂) fun l₃ hl₃ => hpush _ l₃ hl₃

lemma sets_state3 (hl : P l.bindata l.mode) : Sets P (state3 l) := by
  have hclose : ∀ l : Locals, P l.bindata l.mode → Sets P (closeLevel l) := by
    intro l hl
    rw [closeLevel]
    split
    · exact trivial
    · split
      · exact hl
      · split
        · exact trivial
        · exact hl
  have hreturn : ∀ l : Locals, P l.bindata l.mode → Sets P (.error (returnTree l)) := by
    intro l hl
    rw [returnTree]
    split
    · exact trivial
    · exact hl
  rw [state3]
  split_ifs
  · exact hl
  · refine Post.bind (hclose _ hl) fun l₁ hl₁ => ?_
    rw [fire_eq]
    dsimp only
    split_ifs
    · exact hreturn _ hl₁
    · exact hl₁

lemma sets_state4 (hl : P l.bindata l.mode) : Sets P (state4 env c l) := by
  rw [state4]
  split_ifs
  · exact sets_overwrite hl
  · exact Post.bind (sets_storeEsc hl) fun l₁ hl₁ => hl₁
  · exact sets_endBare hl

lemma sets_state5Rest (hl : P l.bindata l.mode) : Sets P (state5Rest env c l) := by
  rw [state5Rest]
  split_ifs
  · exact sets_endQuoted hl
  · exact Post.bind (sets_store hl) fun l₁ hl₁ => hl₁

lemma sets_state5 (hl : P l.bindata l.mode) : Sets P (state5 env c l) := by
  rw [state5]
  split_ifs
  · refine Post.bind (sets_overwrite hl) fun l₁ hl₁ => ?_
    rw [Env.read]
    split
    · exact sets_state5Rest hl₁
    · exact trivial
  · exact sets_state5Rest hl

lemma sets_state7 (hl : P l.bindata l.mode) : Sets P (state7 env c l) := by
  rw [state7]
  split_ifs
  · exact Post.bind (x := store env dquote _) (sets_store hl) fun l₁ hl₁ => hl₁
  · exact hl
  · exact hl

lemma sets_state9 (hl : P l.bindata l.mode) : Sets P (state9 env l) := by
  rw [state9]
  split_ifs
  · exact sets_endQuotedList hl
  · exact hl

lemma sets_state8 (hl : P l.bindata l.mode) : Sets P (state8 env c l) := by
  have hcount : P (countParen c l).bindata (countParen c l).mode := by
    rw [countParen]
    split_ifs
    · exact hl
    · exact hl
    · exact hl
    · exact hl
    · exact hl
  refine Post.bind (sets_storeEsc hcount) fun l₁ hl₁ => ?_
  dsimp only
  split_ifs
  · exact sets_state9 hl₁
  · exact hl₁

lemma sets_state10 (hl : P l.bindata l.mode) : Sets P (state10 env c l) := by
  refine Post.bind (x := storeEsc env c _) ?_ fun l₁ hl₁ => hl₁
  split_ifs
  · exact sets_storeEsc hl
  · exact sets_storeEsc hl

lemma sets_state12 (hl : P l.bindata l.mode) : Sets P (state12 env c l) := by
  rw [state12]
  split_ifs
  · exact Post.bind (sets_storeEsc hl) fun l₁ hl₁ => hl₁
  · exact hl

lemma sets_state13 (hl : P l.bindata l.mode) : Sets P (state13 env c l) := by
  rw [state13]
  split_ifs
  · exact Post.bind (sets_storeEsc hl) fun l₁ hl₁ => hl₁
  · exact hl

end Sets

/-- Only state 15 holds the bytes of a blob. -/
def BlobHeld (r : Regs) : Prop := r.state ≠ .s15 → r.bindata = none

/-- What a round keeps of `BlobHeld`. -/
abbrev HoldsBlob : Exec Locals → Prop :=
  Post (fun l => BlobHeld l.toRegs) (fun r => BlobHeld r.cc.toRegs) fun _ => True

section HoldsBlob

variable {env : Env} {l : Locals} {c : Byte}

lemma Sets.held {x : Exec Locals} (hx : Sets (fun b _ => b = none) x) : HoldsBlob x :=
  Post.mono hx (fun _ hl _ => hl) fun _ hr _ => hr

lemma holdsBlob_state14 (hl : l.bindata = none) : HoldsBlob (state14 env c l) := by
  have h15 : ∀ l : Locals, l.state = .s15 → HoldsBlob (endSize env l) := by
    intro l hstate
    refine Post.bind (x := writeCur nul l) (Q := fun l => l.state = .s15) ?_ ?_
    · rw [writeCur]
      split_ifs
      · exact hstate
      · exact trivial
    · intro l₁ hl₁
      dsimp only
      split_ifs
      · refine Post.bind (x := need env _) (Q := fun l => l.state = .s15) ?_ fun l₂ hl₂ hne =>
          absurd hl₂ hne
        rw [need]
        split_ifs
        · exact hl₁
        · exact fun hne => absurd hl₁ hne
      · exact fun hne => absurd hl₁ hne
  rw [state14]
  split_ifs
  · exact h15 _ rfl
  · exact Sets.held (Post.bind (sets_storeEsc (P := fun b _ => b = none) hl) fun l₁ hl₁ => hl₁)

lemma holdsBlob_state15 (h15 : l.state = .s15) : HoldsBlob (state15 env l) := by
  refine Post.bind (x := readBlob env l) (Q := fun l => l.state = .s15) ?_ ?_
  · rw [readBlob]
    split_ifs
    · rw [Env.read]
      split
      · rw [ok_bind]
        split
        · exact trivial
        · split_ifs
          · exact h15
          · exact trivial
      · exact trivial
    · exact h15
  · intro l₁ hl₁
    split_ifs
    · refine Post.bind (x := need env l₁) (Q := fun _ => True) ?_ ?_
      · rw [need]
        split_ifs
        · exact trivial
        · exact fun hne => absurd hl₁ hne
      · intro l₂ _
        rw [fire_eq]
        intro _
        dsimp only
        cases hlink : link _ with
        | none => rfl
        | some l₃ =>
          rw [Option.getD_some, link_frame hlink]
    · exact fun hne => absurd hl₁ hne

lemma holdsBlob_switch (hl : BlobHeld l.toRegs) : HoldsBlob (switch env c l) := by
  rw [switch]
  have hnone := hl
  rw [BlobHeld] at hnone
  cases hstate : l.state with
  | s1 => exact Sets.held (sets_state1 (hnone (by simp [hstate])))
  | s2 => exact Sets.held (sets_state2 (hnone (by simp [hstate])))
  | s3 => exact Sets.held (sets_state3 (hnone (by simp [hstate])))
  | s4 => exact Sets.held (sets_state4 (hnone (by simp [hstate])))
  | s5 => exact Sets.held (sets_state5 (hnone (by simp [hstate])))
  | s6 => exact fun _ => hnone (by simp [hstate])
  | s7 => exact Sets.held (sets_state7 (hnone (by simp [hstate])))
  | s8 => exact Sets.held (sets_state8 (hnone (by simp [hstate])))
  | s9 => exact Sets.held (sets_state9 (hnone (by simp [hstate])))
  | s10 => exact Sets.held (sets_state10 (hnone (by simp [hstate])))
  | s11 => exact fun _ => hnone (by simp [hstate])
  | s12 => exact Sets.held (sets_state12 (hnone (by simp [hstate])))
  | s13 => exact Sets.held (sets_state13 (hnone (by simp [hstate])))
  | s14 => exact holdsBlob_state14 (hnone (by simp [hstate]))
  | s15 => exact holdsBlob_state15 hstate
  | unknown => exact hl

end HoldsBlob

/-- The piece leaves the mode as it is. -/
abbrev InMode (m : ParserMode) : Exec Locals → Prop := Sets fun _ m' => m' = m

section InMode

variable {env : Env} {l : Locals} {m : ParserMode} {c : Byte}

lemma inMode_endSize (hl : l.mode = m) : InMode m (endSize env l) := by
  refine Post.bind (sets_writeCur (P := fun _ m' => m' = m) hl) fun l₁ hl₁ => ?_
  dsimp only
  split_ifs
  · exact Post.bind (x := need env _) (sets_need (P := fun _ m' => m' = m) hl₁) fun l₂ hl₂ => hl₂
  · exact hl₁

lemma inMode_state14 (hl : l.mode = m) : InMode m (state14 env c l) := by
  rw [state14]
  split_ifs
  · exact @inMode_endSize env { l with t := l.t + 1, state := .s15 } m hl
  · exact Post.bind (sets_storeEsc (P := fun _ m' => m' = m) hl) fun l₁ hl₁ => hl₁

lemma inMode_readBlob (hl : l.mode = m) : InMode m (readBlob env l) := by
  rw [readBlob]
  split_ifs
  · rw [Env.read]
    split
    · rw [ok_bind]
      split
      · exact trivial
      · split_ifs
        · exact hl
        · exact trivial
    · exact trivial
  · exact hl

lemma inMode_endBlob (hl : l.mode = m) : InMode m (endBlob env l) := by
  refine Post.bind (sets_need (P := fun _ m' => m' = m) hl) fun l₁ hl₁ => ?_
  rw [fire_eq]
  dsimp only
  cases hlink : link _ with
  | none => exact hl₁
  | some l₃ =>
    change l₃.mode = m
    rw [link_frame hlink]
    exact hl₁

lemma inMode_state15 (hl : l.mode = m) : InMode m (state15 env l) := by
  refine Post.bind (inMode_readBlob hl) fun l₁ hl₁ => ?_
  split_ifs
  · exact inMode_endBlob hl₁
  · exact hl₁

lemma inMode_finish (hl : l.mode = m) : InMode m (.error (finish env l)) := by
  rw [finish]
  split_ifs
  · rw [returnTree]
    split
    · exact trivial
    · exact hl
  · split
    · exact trivial
    · exact hl

lemma inMode_switch (hl : l.mode = m) : InMode m (switch env c l) := by
  rw [switch]
  cases l.state with
  | s1 => exact sets_state1 hl
  | s2 => exact sets_state2 hl
  | s3 => exact sets_state3 hl
  | s4 => exact sets_state4 hl
  | s5 => exact sets_state5 hl
  | s6 => exact hl
  | s7 => exact sets_state7 hl
  | s8 => exact sets_state8 hl
  | s9 => exact sets_state9 hl
  | s10 => exact sets_state10 hl
  | s11 => exact hl
  | s12 => exact sets_state12 hl
  | s13 => exact sets_state13 hl
  | s14 => exact inMode_state14 hl
  | s15 => exact inMode_state15 hl
  | unknown => exact hl

/-- No round changes the mode. -/
lemma inMode_cparseHead (hl : l.mode = m) : InMode m (cparseHead env l) := by
  rw [cparseHead]
  split_ifs
  · exact inMode_finish hl
  · exact inMode_state15 hl
  · rw [Env.read]
    split
    · rw [ok_bind]
      split_ifs
      · exact inMode_finish hl
      · exact inMode_switch hl
    · exact trivial

end InMode

end Sfsexp.Proofs
