import Sfsexp.Proofs.Buffer

/-!
# `sexp_errno` and the error of the continuation

Every way out of `cparse_sexp` stores one code in both places. `eparse_sexp` and the test for a
`NULL` string write to the continuation only, so there the two agree only by chance.
-/

namespace Sfsexp.Proofs

open Sfsexp

/-- A round that returns leaves the same code in both places. -/
def Agrees {α : Type} (x : Exec α) : Prop := ∀ r, x = .error (.ret r) → r.errno = r.cc.error

/-- The code is the same in both places, and none that speaks of the content of an atom. -/
def Coded {α : Type} (x : Exec α) : Prop :=
  ∀ r, x = .error (.ret r) → r.errno = r.cc.error ∧ r.cc.error ≠ .badContent

section Pieces

variable {env : Env} {l : Locals} {c : Byte}

lemma coded_ok {α : Type} (a : α) : Coded (.ok a : Exec α) := by
  intro r h
  cases h

lemma coded_fault {α : Type} (f : Fault) : Coded (.error (.fault f) : Exec α) := by
  intro r h
  cases h

lemma coded_save {α : Type} (l : Locals) (err : ErrCode) (ls : List Sexp) (herr : err ≠ .badContent) :
    Coded (.error (l.save err ls) : Exec α) := by
  intro r h
  cases h
  exact ⟨rfl, herr⟩

lemma Coded.bind {α β : Type} {x : Exec α} {f : α → Exec β} (hx : Coded x)
    (hf : ∀ a, Coded (f a)) : Coded (x >>= f) := by
  cases x with
  | ok a => exact hf a
  | error e =>
    intro r h
    apply hx
    cases h
    rfl

lemma coded_read (t : Nat) : Coded (env.read t) := by
  unfold Env.read
  split
  · exact coded_ok _
  · exact coded_fault _

lemma coded_need : Coded (need env l) := by
  unfold need
  split_ifs
  · exact coded_ok _
  · exact coded_save _ _ _ (by decide)

lemma coded_writeCur : Coded (writeCur c l) := by
  unfold writeCur
  split_ifs
  · exact coded_ok _
  · exact coded_fault _

lemma coded_overwrite : Coded (overwrite c l) := by
  unfold overwrite
  split
  · exact coded_fault _
  · split_ifs
    · exact coded_ok _
    · exact coded_fault _

lemma coded_grow {keep : Bool} : Coded (grow env keep l) := by
  unfold grow
  split_ifs
  · exact coded_ok _
  · exact coded_save _ _ _ (by decide)
  · exact coded_save _ _ _ (by decide)
  · exact coded_ok _

lemma coded_store : Coded (store env c l) :=
  coded_writeCur.bind fun _ => coded_grow

lemma coded_storeEsc : Coded (storeEsc env c l) :=
  coded_writeCur.bind fun _ => coded_grow

lemma coded_emit {aty : AtomT} : Coded (emit env aty l) := by
  unfold emit
  dsimp only
  split_ifs
  · exact coded_ok _
  · exact coded_save _ _ _ (by decide)

end Pieces

section Rounds

variable {env : Env} {l : Locals} {c : Byte}

lemma coded_state1 : Coded (state1 env c l) := by
  unfold state1
  split_ifs
  · exact coded_ok _
  · exact coded_ok _
  · exact coded_ok _
  · exact coded_ok _
  · exact coded_ok _
  · exact coded_ok _
  · exact coded_writeCur.bind fun _ => coded_grow.bind fun _ => coded_ok _

lemma coded_attachList : Coded (attachList env l) := by
  unfold attachList
  split_ifs
  · exact coded_need.bind fun _ => coded_ok _
  · split
    · exact coded_ok _
    · exact coded_fault _

lemma coded_state2 : Coded (state2 env l) :=
  coded_need.bind fun _ => coded_attachList.bind fun _ => coded_need.bind fun _ => coded_ok _

lemma coded_closeLevel : Coded (closeLevel l) := by
  unfold closeLevel
  split
  · exact coded_fault _
  · split
    · exact coded_save _ _ _ (by decide)
    · split
      · exact coded_fault _
      · exact coded_ok _

lemma coded_returnTree {α : Type} : Coded (.error (returnTree l) : Exec α) := by
  unfold returnTree
  split
  · exact coded_fault _
  · exact coded_save _ _ _ (by decide)

lemma coded_state3 : Coded (state3 l) := by
  unfold state3
  split_ifs
  · exact coded_save _ _ _ (by decide)
  · apply coded_closeLevel.bind
    intro l'
    dsimp only
    split_ifs
    · exact coded_returnTree
    · exact coded_ok _

lemma coded_endBare : Coded (endBare env c l) := by
  apply coded_writeCur.bind
  intro l₁
  apply coded_need.bind
  intro l₂
  apply coded_emit.bind
  intro l₃
  split
  · exact coded_save _ _ _ (by decide)
  · exact coded_ok _

lemma coded_state4 : Coded (state4 env c l) := by
  unfold state4
  split_ifs
  · exact coded_overwrite
  · exact coded_storeEsc.bind fun _ => coded_ok _
  · exact coded_endBare

lemma coded_endQuoted : Coded (endQuoted env l) := by
  have hclose : Coded (closingQuote env l) := by
    unfold closingQuote
    split_ifs
    · exact coded_store
    · exact coded_ok _
  apply hclose.bind
  intro l₁
  apply coded_writeCur.bind
  intro l₂
  apply coded_need.bind
  intro l₃
  apply coded_emit.bind
  intro l₄
  split
  · exact coded_save _ _ _ (by decide)
  · exact coded_ok _

lemma coded_state5Rest : Coded (state5Rest env c l) := by
  unfold state5Rest
  split_ifs
  · exact coded_endQuoted
  · exact coded_store.bind fun _ => coded_ok _

lemma coded_state5 : Coded (state5 env c l) := by
  unfold state5
  split_ifs
  · exact coded_overwrite.bind fun _ => (coded_read _).bind fun _ => coded_state5Rest
  · exact coded_state5Rest

lemma coded_state7 : Coded (state7 env c l) := by
  unfold state7
  split_ifs
  · exact coded_store.bind fun _ => coded_ok _
  · exact coded_ok _
  · exact coded_ok _

lemma coded_state9 : Coded (state9 env l) := by
  unfold state9
  split_ifs
  · apply coded_writeCur.bind
    intro l₁
    apply coded_need.bind
    intro l₂
    apply coded_emit.bind
    intro l₃
    split
    · exact coded_save _ _ _ (by decide)
    · exact coded_ok _
  · exact coded_ok _

lemma coded_state8 : Coded (state8 env c l) := by
  apply coded_storeEsc.bind
  intro l'
  dsimp only
  split_ifs
  · exact coded_state9
  · exact coded_ok _

lemma coded_state12 : Coded (state12 env c l) := by
  unfold state12
  split_ifs
  · exact coded_storeEsc.bind fun _ => coded_ok _
  · exact coded_ok _

lemma coded_state13 : Coded (state13 env c l) := by
  unfold state13
  split_ifs
  · exact coded_storeEsc.bind fun _ => coded_ok _
  · exact coded_ok _

lemma coded_state14 : Coded (state14 env c l) := by
  unfold state14
  split_ifs
  · apply coded_writeCur.bind
    intro l'
    dsimp only
    split_ifs
    · exact coded_need.bind fun _ => coded_ok _
    · exact coded_ok _
  · exact coded_storeEsc.bind fun _ => coded_ok _

lemma coded_readBlob : Coded (readBlob env l) := by
  unfold readBlob
  split_ifs
  · apply (coded_read _).bind
    intro c
    split
    · exact coded_fault _
    · split_ifs
      · exact coded_ok _
      · exact coded_fault _
  · exact coded_ok _

lemma coded_state15 : Coded (state15 env l) := by
  apply coded_readBlob.bind
  intro l'
  split_ifs
  · exact coded_need.bind fun _ => coded_ok _
  · exact coded_ok _

lemma coded_switch : Coded (switch env c l) := by
  unfold switch
  cases l.state with
  | s1 => exact coded_state1
  | s2 => exact coded_state2
  | s3 => exact coded_state3
  | s4 => exact coded_state4
  | s5 => exact coded_state5
  | s6 => exact coded_ok _
  | s7 => exact coded_state7
  | s8 => exact coded_state8
  | s9 => exact coded_state9
  | s10 => exact coded_storeEsc.bind fun _ => coded_ok _
  | s11 => exact coded_ok _
  | s12 => exact coded_state12
  | s13 => exact coded_state13
  | s14 => exact coded_state14
  | s15 => exact coded_state15
  | unknown => exact coded_save _ _ _ (by decide)

lemma coded_finish : Coded (.error (finish env l) : Exec Locals) := by
  unfold finish
  split_ifs
  · exact coded_returnTree
  · split
    · exact coded_fault _
    · intro r h
      cases h
      exact ⟨rfl, (by decide : ErrCode.incomplete ≠ .badContent)⟩

lemma coded_cparseHead : Coded (cparseHead env l) := by
  unfold cparseHead
  split_ifs
  · exact coded_finish
  · exact coded_state15
  · apply (coded_read _).bind
    intro c
    split_ifs
    · exact coded_finish
    · exact coded_switch

lemma agrees_cparseHead : Agrees (cparseHead env l) := fun r h => (coded_cparseHead r h).1

/-- A run of the parser that builds trees. -/
lemma runParser_agrees {g : Setup} {buf : List Byte} {len allocs : Nat} {cc : Pcont} {r : Return}
    (h : runParser g buf len cc allocs = .ret r) : r.errno = r.cc.error := by
  unfold runParser at h
  dsimp only at h
  cases hrun : Loop.run (cparseHead { toSetup := g, buf := buf, len := len })
      (fuel { toSetup := g, buf := buf, len := len }) (cc.enter allocs) with
  | none =>
    rw [hrun] at h
    cases h
  | some stop =>
    rw [hrun] at h
    obtain ⟨l, -, hexit⟩ := Loop.exit_of_halts ⟨_, hrun⟩
    cases stop with
    | ret r' =>
      cases h
      exact agrees_cparseHead r hexit
    | fault f => cases h

end Rounds

section Recode

/-- The same way out with another value of `sexp_errno`. -/
def recodeStop (e : ErrCode) : Stop → Stop
  | .ret r => .ret { r with errno := e }
  | .fault f => .fault f

def recode {α : Type} (e : ErrCode) : Exec α → Exec α
  | .ok a => .ok a
  | .error stop => .error (recodeStop e stop)

/-- `eparse_sexp` entered with another value of `sexp_errno`. -/
def entered (e : ErrCode) (env : EventEnv) : EventEnv := { env with errno := e }

variable {env : EventEnv} {e : ErrCode} {l : Locals} {c : Byte}

lemma recode_bind {α β : Type} (x : Exec α) (f : α → Exec β) :
    recode e (x >>= f) = recode e x >>= fun a => recode e (f a) := by
  cases x with
  | ok a => rfl
  | error stop => rfl

/-- A piece of a round that does not return. -/
def Stays {α : Type} (x : Exec α) : Prop := ∀ r, x ≠ .error (.ret r)

lemma Stays.recode {α : Type} {x : Exec α} (h : Stays x) : recode e x = x := by
  match x, h with
  | .ok a, _ => rfl
  | .error (.ret r), h => exact absurd rfl (h r)
  | .error (.fault f), _ => rfl

lemma Stays.bind {α β : Type} {x : Exec α} {f : α → Exec β} (hx : Stays x)
    (hf : ∀ a, Stays (f a)) : Stays (x >>= f) := by
  match x, hx with
  | .ok a, _ => exact hf a
  | .error (.ret r), hx => exact absurd rfl (hx r)
  | .error (.fault f), _ =>
    intro r h
    cases h

lemma stays_ok {α : Type} (a : α) : Stays (.ok a : Exec α) := by
  intro r h
  cases h

lemma stays_fault {α : Type} (f : Fault) : Stays (.error (.fault f) : Exec α) := by
  intro r h
  cases h

lemma stays_read (env : Env) (t : Nat) : Stays (env.read t) := by
  unfold Env.read
  split
  · exact stays_ok _
  · exact stays_fault _

lemma stays_writeCur : Stays (writeCur c l) := by
  unfold writeCur
  split_ifs
  · exact stays_ok _
  · exact stays_fault _

lemma stays_overwrite : Stays (overwrite c l) := by
  unfold overwrite
  split
  · exact stays_fault _
  · split_ifs
    · exact stays_ok _
    · exact stays_fault _

lemma stays_eventGrow : Stays (env.grow l) := by
  unfold EventEnv.grow
  split_ifs
  · exact stays_ok _
  · exact stays_fault _
  · exact stays_ok _

lemma stays_eventStore : Stays (env.store c l) := stays_writeCur.bind fun _ => stays_eventGrow

lemma stays_eventStoreEsc : Stays (env.storeEsc c l) :=
  stays_writeCur.bind fun _ => stays_eventGrow

end Recode

namespace EventEnv

open Sfsexp.EventEnv

variable {env : EventEnv} {e : ErrCode} {l : Locals} {c : Byte}

@[simp] lemma entered_len : (entered e env).len = env.len := rfl

@[simp] lemma entered_buf : (entered e env).buf = env.buf := rfl

@[simp] lemma entered_read (t : Nat) : (entered e env).read t = env.read t := rfl

lemma recode_state3 : (entered e env).state3 l = recode e (env.state3 l) := by
  unfold EventEnv.state3
  dsimp only
  split_ifs
  · rfl
  · rfl
  · rfl

lemma recode_endBare : (entered e env).endBare c l = recode e (env.endBare c l) := by
  unfold EventEnv.endBare
  rw [recode_bind, stays_writeCur.recode]
  apply bind_congr
  intro l'
  rw [apply_ite (recode e)]
  rfl

lemma recode_state4 : (entered e env).state4 c l = recode e (env.state4 c l) := by
  unfold EventEnv.state4
  split_ifs
  · exact stays_overwrite.recode.symm
  · exact (stays_eventStoreEsc.bind fun _ => stays_ok _).recode.symm
  · exact recode_endBare

lemma recode_endQuoted : (entered e env).endQuoted l = recode e (env.endQuoted l) := by
  have hclose : Stays (env.closingQuote l) := by
    unfold EventEnv.closingQuote
    split_ifs
    · exact stays_eventStore
    · exact stays_ok _
  unfold EventEnv.endQuoted
  rw [recode_bind, hclose.recode]
  apply bind_congr
  intro l₁
  rw [recode_bind, stays_writeCur.recode]
  apply bind_congr
  intro l₂
  rw [apply_ite (recode e)]
  rfl

lemma recode_state5Rest : (entered e env).state5Rest c l = recode e (env.state5Rest c l) := by
  unfold EventEnv.state5Rest
  split_ifs
  · exact recode_endQuoted
  · exact (stays_eventStore.bind fun _ => stays_ok _).recode.symm

lemma recode_state5 : (entered e env).state5 c l = recode e (env.state5 c l) := by
  unfold EventEnv.state5
  split_ifs
  · rw [recode_bind, stays_overwrite.recode]
    apply bind_congr
    intro l'
    rw [recode_bind, (stays_read _ _).recode]
    apply bind_congr
    intro c'
    exact recode_state5Rest
  · exact recode_state5Rest

lemma recode_state7 : (entered e env).state7 c l = recode e (env.state7 c l) := by
  unfold EventEnv.state7
  split_ifs
  · exact (stays_eventStore.bind fun _ => stays_ok _).recode.symm
  · rfl
  · rfl

lemma recode_state9 : (entered e env).state9 l = recode e (env.state9 l) := by
  unfold EventEnv.state9 EventEnv.endQuotedList
  split_ifs
  · rw [recode_bind, stays_writeCur.recode]
    apply bind_congr
    intro l'
    rw [apply_ite (recode e)]
    rfl
  · rfl

lemma recode_state8 : (entered e env).state8 c l = recode e (env.state8 c l) := by
  unfold EventEnv.state8
  rw [recode_bind, stays_eventStoreEsc.recode]
  apply bind_congr
  intro l'
  dsimp only
  split_ifs
  · exact recode_state9
  · rfl

lemma stays_state12 : Stays (env.state12 c l) := by
  unfold EventEnv.state12
  split_ifs
  · exact stays_eventStoreEsc.bind fun _ => stays_ok _
  · exact stays_ok _

lemma stays_state13 : Stays (env.state13 c l) := by
  unfold EventEnv.state13
  split_ifs
  · exact stays_eventStoreEsc.bind fun _ => stays_ok _
  · exact stays_ok _

lemma stays_state14 : Stays (env.state14 c l) := by
  unfold EventEnv.state14
  split_ifs
  · apply stays_writeCur.bind
    intro l'
    dsimp only
    split_ifs
    · exact stays_ok _
    · exact stays_fault _
  · exact stays_eventStoreEsc.bind fun _ => stays_ok _

lemma stays_state15 : Stays (env.state15 l) := by
  have hblob : Stays (env.readBlob l) := by
    apply (stays_read _ _).bind
    intro c
    split
    · exact stays_fault _
    · split_ifs
      · exact stays_ok _
      · exact stays_fault _
  apply hblob.bind
  intro l'
  split_ifs
  · exact stays_ok _
  · exact stays_ok _

lemma stays_state1 : Stays (env.state1 c l) := by
  unfold EventEnv.state1
  split_ifs
  · exact stays_ok _
  · exact stays_ok _
  · exact stays_ok _
  · exact stays_ok _
  · exact stays_ok _
  · exact stays_ok _
  · exact stays_eventStoreEsc.bind fun _ => stays_ok _

lemma recode_switch : (entered e env).switch c l = recode e (env.switch c l) := by
  unfold EventEnv.switch
  cases l.state with
  | s1 => exact stays_state1.recode.symm
  | s2 => rfl
  | s3 => exact recode_state3
  | s4 => exact recode_state4
  | s5 => exact recode_state5
  | s6 => rfl
  | s7 => exact recode_state7
  | s8 => exact recode_state8
  | s9 => exact recode_state9
  | s10 => exact (stays_eventStoreEsc.bind fun _ => stays_ok _).recode.symm
  | s11 => rfl
  | s12 => exact stays_state12.recode.symm
  | s13 => exact stays_state13.recode.symm
  | s14 => exact stays_state14.recode.symm
  | s15 => exact stays_state15.recode.symm
  | unknown => rfl

lemma recode_finish : (entered e env).finish l = recodeStop e (env.finish l) := by
  unfold EventEnv.finish
  simp only [entered_buf, entered_len]
  split_ifs
  · rfl
  · cases env.buf[l.t]? with
    | none => rfl
    | some c => rfl

lemma recode_eparseHead : (entered e env).eparseHead l = recode e (env.eparseHead l) := by
  unfold EventEnv.eparseHead
  by_cases hs : l.state = .s15
  · rw [if_pos hs, if_pos hs]
    by_cases ht : l.t = env.len
    · rw [if_pos ht, if_pos (by exact ht), recode_finish]
      rfl
    · rw [if_neg ht, if_neg (by exact ht)]
      exact stays_state15.recode.symm
  · rw [if_neg hs, if_neg hs, recode_bind, (stays_read _ _).recode]
    apply bind_congr
    intro c
    by_cases hc : c = nul ∨ l.t = env.len
    · rw [if_pos hc, if_pos (by exact hc), recode_finish]
      rfl
    · rw [if_neg hc, if_neg (by exact hc)]
      exact recode_switch

/-- What `sexp_errno` was before does not change the run. -/
lemma run_recode (n : Nat) (l : Locals) :
    Loop.run (entered e env).eparseHead n l =
      (Loop.run env.eparseHead n l).map (recodeStop e) := by
  induction n generalizing l with
  | zero => rfl
  | succ n ih =>
    rw [Loop.run, Loop.run, recode_eparseHead]
    cases env.eparseHead l with
    | ok l' => exact ih l'
    | error stop => rfl

end EventEnv

section Calls

variable {g : Setup} {len : Nat} {lc : Option Pcont}

lemma eparseSexp_recode {buf : List Byte} {cc : Pcont} {errno : ErrCode} {r : Return}
    (h : eparseSexp g buf len cc errno = .ret r) (e : ErrCode) :
    eparseSexp g buf len cc e = .ret { r with errno := e } := by
  let env : EventEnv := { toSetup := g, buf := buf, len := len, cc := cc, errno := errno }
  have hagain : eparseSexp g buf len cc e =
      Result.ofStop ((Loop.run env.eparseHead (fuel env.toEnv) (cc.enter 0)).map (recodeStop e)) :=
    congrArg Result.ofStop (@EventEnv.run_recode env e _ _)
  have hrun : Result.ofStop (Loop.run env.eparseHead (fuel env.toEnv) (cc.enter 0)) = .ret r := h
  rw [hagain]
  match Loop.run env.eparseHead (fuel env.toEnv) (cc.enter 0), hrun with
  | some (.ret r'), hrun =>
    cases hrun
    rfl

/-- The call has a string, and its continuation is not in mode `PARSER_EVENTS_ONLY`. -/
def Parses (str : Option (List Byte)) (lc : Option Pcont) : Prop :=
  str ≠ none ∧ ∀ cc, lc = some cc → cc.mode ≠ .eventsOnly

lemma agrees_of_parses {str : Option (List Byte)} {errno : ErrCode} {r : Return}
    (h : Parses str lc) (hret : cparseSexp g str len lc errno = .ret r) :
    r.errno = r.cc.error := by
  obtain ⟨hstr, hmode⟩ := h
  cases str with
  | none => exact absurd rfl hstr
  | some buf =>
    cases lc with
    | some cc =>
      rw [cparseSexp, if_neg (hmode cc rfl)] at hret
      exact runParser_agrees hret
    | none =>
      rw [cparseSexp] at hret
      split at hret
      · cases hret
      · exact runParser_agrees hret

/-- Any other call that returns a continuation returns it whatever `sexp_errno` was, with the same
error in it, and leaves `sexp_errno` alone. -/
lemma kept_of_not_parses {str : Option (List Byte)} {errno : ErrCode} {r : Return}
    (h : ¬ Parses str lc) (hret : cparseSexp g str len lc errno = .ret r) (e : ErrCode) :
    cparseSexp g str len lc e = .ret { r with errno := e } := by
  cases str with
  | none =>
    cases lc with
    | some cc =>
      cases hret
      rfl
    | none =>
      rw [cparseSexp] at hret ⊢
      generalize initContinuation g = start at hret ⊢
      obtain ⟨cc, n⟩ := start
      cases cc with
      | none => cases hret
      | some cc =>
        cases hret
        rfl
  | some buf =>
    cases lc with
    | none => exact absurd ⟨Option.some_ne_none buf, fun _ hcc => by cases hcc⟩ h
    | some cc =>
      by_cases hmode : cc.mode = .eventsOnly
      · rw [cparseSexp, if_pos hmode] at hret ⊢
        exact eparseSexp_recode hret e
      · refine absurd ⟨Option.some_ne_none buf, ?_⟩ h
        intro cc' hcc
        cases hcc
        exact hmode

/-- `sexp_errno` agrees with the error of the continuation that a call returns, whatever it was
before, exactly when the call parses a string with the parser that builds trees. -/
theorem errors_agree (g : Setup) (str : Option (List Byte)) (len : Nat) (lc : Option Pcont) :
    (∀ errno r, cparseSexp g str len lc errno = .ret r → r.errno = r.cc.error) ↔
      Parses str lc ∨ ∀ errno r, cparseSexp g str len lc errno ≠ .ret r := by
  constructor
  · intro hagree
    by_cases hparses : Parses str lc
    · exact .inl hparses
    · right
      intro errno r hret
      -- two values of `sexp_errno` before the call cannot both be the one error after it
      have hok := hagree .ok _ (kept_of_not_parses hparses hret .ok)
      have hmemory := hagree .memory _ (kept_of_not_parses hparses hret .memory)
      have hsame : ErrCode.ok = ErrCode.memory := hok.trans hmemory.symm
      cases hsame
  · rintro (hparses | hnone) errno r hret
    · exact agrees_of_parses hparses hret
    · exact absurd hret (hnone errno r)

/-- A `NULL` string on a new continuation. -/
theorem null_string_disagrees :
    ¬ ∀ errno r, cparseSexp Setup.plain none 0 none errno = .ret r → r.errno = r.cc.error := by
  intro hagree
  have hcode := hagree .ok _ rfl
  cases hcode

end Calls

end Sfsexp.Proofs
