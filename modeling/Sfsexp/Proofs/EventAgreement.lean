import Sfsexp.Proofs.EventLockstep

/-!
# What is heard from the two parsers

In calls whose rounds are unmixed the two values of `squoted` stay the same, and so do the callbacks.
The values go apart where a single-quoted string ends inside a list, and where a call that was entered
in a single-quoted token ends a list.
-/

namespace Sfsexp.Proofs

open Sfsexp Spec

/-- Nothing was mixed up, and both parsers have `s` in `squoted`. -/
def Flags.same (hs : Option Handlers) (s : Bool) : Flags := ⟨hs, s, s, false⟩

section Calls

variable {env : EventEnv} {l : Locals} {hs : Option Handlers} {s entered : Bool}

lemma report_same : (Flags.same hs s).report = .same hs s := by
  rw [Flags.report, Flags.same]
  simp

lemma same_next (hsq : l.squoted = s) (hmix : Unmixed entered env.toEnv l) :
    ∃ s', (Flags.same hs s).next env.toEnv l = .same hs s' := by
  rw [Flags.next]
  cases env.buf[l.t]? with
  | none => exact ⟨s, rfl⟩
  | some c =>
    dsimp only
    split_ifs
    · exact ⟨s, rfl⟩
    · rw [Flags.after]
      split
      · split_ifs
        · rw [report_same]
          exact ⟨false, rfl⟩
        · exact ⟨s, rfl⟩
      · split_ifs with hcloses
        · rw [Flags.stringEnd, report_same]
          split_ifs with hdepth
          · exact ⟨false, rfl⟩
          · have hplain : s = false := by
              rw [← hsq, ← Bool.not_eq_true]
              exact mt (hmix.string hcloses) hdepth
            exact ⟨false, by rw [hplain]; rfl⟩
        · exact ⟨s, rfl⟩
      · split_ifs
        · exact ⟨s, rfl⟩
        · exact ⟨true, rfl⟩
      · exact ⟨s, rfl⟩

lemma same_leaves (hsq : l.squoted = s) (hmix : Unmixed entered env.toEnv l) :
    ∃ s', (Flags.same hs s).leaves entered env.toEnv l = .same hs s' := by
  rw [Flags.leaves]
  by_cases h3 : l.state = .s3
  · rw [if_pos h3]
    by_cases hdepth : l.depth = 1
    · refine ⟨s, ?_⟩
      rw [if_pos hdepth, ← hmix.list h3 hdepth, hsq]
      rfl
    · rw [if_neg hdepth]
      exact ⟨s, rfl⟩
  · obtain ⟨s', hnext⟩ := same_next hsq hmix
    rw [if_neg h3, hnext]
    exact ⟨false, rfl⟩

/-- A head of the tree-building parser, and the one of the event-only parser in the same round. -/
structure InStep (hs : Option Handlers) (start l e : Locals) (env : EventEnv) : Prop where
  shadows : ∃ s, Shadows (.same hs s) l e
  normal : NormalHead l
  reached : Loop.Reaches (cparseHead env.toEnv) start l

/-- The same for two ends of a call. -/
def InStepStop (hs : Option Handlers) : Stop → Stop → Prop
  | .ret R, .ret R' => (∃ s, Echoes (.same hs s) R R') ∧ Normal R.cc.toRegs
  | .fault _, .fault _ => True
  | _, _ => False

lemma inStep_round (h : env.Succeeds) {start : Locals}
    (hmix : ∀ l, Loop.Reaches (cparseHead env.toEnv) start l → Unmixed env.cc.squoted env.toEnv l)
    (l e : Locals) (hl : InStep hs start l e env) :
    Loop.Lockstep (fun l e => InStep hs start l e env) (InStepStop hs) (cparseHead env.toEnv l)
      (env.eparseHead e) := by
  obtain ⟨s, hshadows⟩ := hl.shadows
  have hround := shadowed_round h hshadows hl.normal
  have hnormal := normal_cparseHead h hl.normal
  have hsquoted : l.squoted = s := hshadows.squoted
  obtain ⟨s', hnext⟩ := same_next hsquoted (hmix l hl.reached)
  obtain ⟨s'', hleaves⟩ := same_leaves hsquoted (hmix l hl.reached)
  rw [hnext, hleaves] at hround
  cases hrun : cparseHead env.toEnv l with
  | ok m =>
    rw [hrun] at hround hnormal
    obtain ⟨m', hrun', hm⟩ := hround.of_ok
    rw [hrun']
    exact ⟨⟨s', hm⟩, hnormal, hl.reached.tail hrun⟩
  | error stop =>
    rw [hrun] at hround hnormal
    cases hrun' : env.eparseHead e with
    | ok m =>
      rw [hrun'] at hround
      exact hround.elim
    | error stop' =>
      rw [hrun'] at hround
      cases stop with
      | fault _ =>
        cases stop' with
        | ret _ => exact hround.elim
        | fault _ => trivial
      | ret R =>
        cases stop' with
        | fault _ => exact hround.elim
        | ret R' =>
          have hechoes : Echoes (onReturn (.same hs s) (.same hs s'') R.cc.lastPos) R R' := hround
          refine ⟨?_, Post.of_ret hnormal R rfl⟩
          cases hpos : R.cc.lastPos with
          | none =>
            rw [hpos] at hechoes
            exact ⟨s, hechoes⟩
          | some p =>
            rw [hpos] at hechoes
            exact ⟨s'', hechoes⟩

/-- The continuations that the two parsers pass on. -/
structure ShadowConts (cc cc' : Pcont) : Prop where
  regs : ShadowRegs cc.squoted cc.toRegs cc'.toRegs
  lastPos : cc'.lastPos = cc.lastPos
  normal : Normal cc.toRegs

lemma ShadowRegs.enter {cc cc' : Pcont} {kept : Bool} (h : ShadowRegs kept cc.toRegs cc'.toRegs)
    (hpos : cc'.lastPos = cc.lastPos) :
    Shadows ⟨cc.eventHandlers, cc.squoted, kept, false⟩ (cc.enter 0) (cc'.enter 0) := by
  obtain ⟨hframe, hheight, htext, hroom, hmode⟩ := h
  refine ⟨?_, rfl, rfl, hheight, htext, hroom, hmode, rfl⟩
  rw [Pcont.enter, Pcont.enter, hpos]
  dsimp only
  rw [hframe]

lemma shadowRegs_new (g : Setup) (hs : Option Handlers) :
    ShadowRegs false { Pcont.new g with eventHandlers := hs }.toRegs
      { Pcont.new g with mode := .eventsOnly, eventHandlers := hs }.toRegs := by
  have hroom := (bufferInv_new g).room
  exact ⟨rfl, rfl, rfl, ⟨hroom.cells, hroom.free⟩, rfl⟩

lemma shadowConts_new (g : Setup) (hs : Option Handlers) :
    ShadowConts { Pcont.new g with eventHandlers := hs }
      { Pcont.new g with mode := .eventsOnly, eventHandlers := hs } := by
  have hroom := (bufferInv_new g).room
  obtain ⟨-, -, hbuffer, s, L, A, hshape⟩ := normal_new g
  exact ⟨shadowRegs_new g hs, rfl, ⟨rfl, rfl, ⟨⟨hroom.cells, hroom.free⟩, hbuffer.token⟩, s, L, A,
    ⟨hshape.state, hshape.stack, hshape.depth, hshape.chained, hshape.lengths⟩⟩⟩

/-- What one call on either continuation ends with. -/
def Answered : Result → Result → Prop
  | .ret R, .ret R' => HeardAlike R R' ∧ (R.cc.error ≠ .badForm → ShadowConts R.cc R'.cc)
  | .ret _, _ | _, .ret _ => False
  | _, _ => True

lemma answered_call {k : Call} (h : k.setup.Succeeds) {cc cc' : Pcont} (hcc : ShadowConts cc cc')
    (hmix : ∀ l, Loop.Reaches (cparseHead k.env) (cc.enter 0) l → Unmixed cc.squoted k.env l) :
    Answered (cparseSexp k.setup (some k.buf) k.len (some cc) k.errno)
      (cparseSexp k.setup (some k.buf) k.len (some cc') k.errno) := by
  have hsq : cc'.squoted = cc.squoted := congrArg (·.squoted) hcc.regs.frame
  have hmode : cc.mode ≠ .eventsOnly := by simp [hcc.normal.mode]
  have hstart : InStep cc.eventHandlers (cc.enter 0) (cc.enter 0) (cc'.enter 0)
      { toEnv := k.env, cc := cc', errno := k.errno } :=
    ⟨⟨_, hcc.regs.enter hcc.lastPos⟩, hcc.normal.enter 0, .refl⟩
  have hrun := Loop.run_lockstep
    (@inStep_round { toEnv := k.env, cc := cc', errno := k.errno } cc.eventHandlers h (cc.enter 0)
      (by rwa [hsq]))
    hstart (fuel k.env)
  rw [cparseSexp_eq_run, cparseSexp_eq_run, Call.head, Call.head, if_neg hmode,
    if_pos hcc.regs.mode]
  generalize Loop.run (cparseHead k.env) (fuel k.env) (cc.enter 0) = x,
    Loop.run (EventEnv.eparseHead _) (fuel k.env) (cc'.enter 0) = y at hrun ⊢
  cases hrun with
  | none => trivial
  | some hstop =>
    rename_i stop stop'
    cases stop with
    | ret R =>
      cases stop' with
      | ret R' =>
        obtain ⟨⟨s, hechoes⟩, hnormal⟩ := hstop
        refine ⟨⟨hechoes.heard, hechoes.cursor, hechoes.lastPos, hechoes.badForm⟩, fun hbad => ?_⟩
        refine ⟨?_, hechoes.lastPos, hnormal⟩
        rw [hechoes.squoted]
        exact hechoes.regs hbad
      | fault _ => exact hstop.elim
    | fault _ =>
      cases stop' with
      | ret _ => exact hstop.elim
      | fault _ => trivial

end Calls

lemma heardIn_alike (ks : List Call) (hsucc : ∀ k ∈ ks, k.setup.Succeeds) {cc cc' : Pcont}
    (hcc : ShadowConts cc cc') (hmix : AllUnmixed ks cc) :
    Option.Rel (List.Forall₂ HeardAlike) (heardIn ks cc) (heardIn ks cc') := by
  induction ks generalizing cc cc' with
  | nil => exact .some .nil
  | cons k ks ih =>
    obtain ⟨hk, hks⟩ := List.forall_mem_cons.mp hsucc
    have hcall := answered_call hk hcc hmix.1
    have hnext := hmix.2
    rw [heardIn, heardIn]
    generalize cparseSexp k.setup (some k.buf) k.len (some cc) k.errno = x,
      cparseSexp k.setup (some k.buf) k.len (some cc') k.errno = y at hcall hnext ⊢
    cases x with
    | ret R =>
      cases y with
      | ret R' =>
        obtain ⟨halike, hconts⟩ := hcall
        dsimp only
        by_cases hbad : R.cc.error = .badForm
        · rw [if_pos hbad, if_pos (halike.badForm.mpr hbad)]
          exact .some (.cons halike .nil)
        · rw [if_neg hbad, if_neg fun h => hbad (halike.badForm.mp h)]
          have hrest := ih hks (hconts hbad) (hnext R rfl hbad)
          generalize heardIn ks R.cc = xs, heardIn ks R'.cc = ys at hrest ⊢
          cases hrest with
          | none => exact .none
          | some hxy => exact .some (.cons halike hxy)
      | null _ | fault _ | diverges => exact hcall.elim
    | null _ | fault _ | diverges =>
      cases y with
      | ret _ => exact hcall.elim
      | null _ | fault _ | diverges => exact .none

/-- The event-only parser makes the callbacks of the tree-building one in every sequence of calls
whose rounds are unmixed, leaves the cursor where the other does, and rejects when the other
does. -/
theorem event_parser_agrees (g : Setup) (hs : Option Handlers) (ks : List Call)
    (hsucc : ∀ k ∈ ks, k.setup.Succeeds)
    (hmix : AllUnmixed ks { Pcont.new g with eventHandlers := hs }) :
    Option.Rel (List.Forall₂ HeardAlike) (heardIn ks { Pcont.new g with eventHandlers := hs })
      (heardIn ks { Pcont.new g with mode := .eventsOnly, eventHandlers := hs }) :=
  heardIn_alike ks hsucc (shadowConts_new g hs) hmix

/-- The string `("a" 'b)`. -/
def quotedPair : Call :=
  ⟨.plain, [lparen, dquote, 97, dquote, space, tick, 98, rparen, nul], 8, .ok⟩

/-- A double-quoted atom and a bare atom behind an apostrophe, in a list. -/
theorem event_parser_agrees_list :
    Option.Rel (List.Forall₂ HeardAlike)
      (heardIn [quotedPair] { Pcont.new .plain with eventHandlers := some allHandlers })
      (heardIn [quotedPair]
        { Pcont.new .plain with mode := .eventsOnly, eventHandlers := some allHandlers }) := by
  have hleaves : (Loop.run (cparseHead quotedPair.env) 20
      (Pcont.enter { Pcont.new .plain with eventHandlers := some allHandlers } 0)).isSome := by
    decide +kernel
  have hheads : ∀ l ∈ Loop.heads (cparseHead quotedPair.env) 20
      (Pcont.enter { Pcont.new .plain with eventHandlers := some allHandlers } 0),
      Unmixed false quotedPair.env l := by
    decide +kernel
  obtain ⟨stop, hrun⟩ := Option.isSome_iff_exists.mp hleaves
  refine event_parser_agrees .plain (some allHandlers) [quotedPair] ?_ ⟨?_, fun _ _ _ => trivial⟩
  · intro k hk
    obtain rfl := List.mem_singleton.mp hk
    exact fun _ => rfl
  · exact fun l hl => hheads l (Loop.mem_heads_of_reaches hrun hl)

/-- The string `('"a" b)`, in which `b` is reported with another type. -/
def mixedPair : Call :=
  ⟨.plain, [lparen, tick, dquote, 97, dquote, space, 98, rparen, nul], 8, .ok⟩

example :
    (heardIn [mixedPair] { Pcont.new .plain with eventHandlers := some allHandlers }).map
        (·.map (·.events)) ≠
      (heardIn [mixedPair] { Pcont.new .plain with
        mode := .eventsOnly, eventHandlers := some allHandlers }).map (·.map (·.events)) := by
  decide +kernel

end Sfsexp.Proofs
