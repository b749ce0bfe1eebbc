import Sfsexp.Proofs.Chunks
import Sfsexp.Proofs.EventAgreement
import Sfsexp.Proofs.QuoteFlags
import Sfsexp.Spec.Resumption

/-!
# What the event-only parser reports of a text

The callbacks of a client that passes its text in chunks are the same in mode `PARSER_EVENTS_ONLY`
as in mode `PARSER_NORMAL`, exactly when no atom ends while the quote flag is not what the atom is.
-/

namespace Sfsexp.Proofs

open Sfsexp Spec

section Heard

variable {hs : Option Handlers} {mixed mixed' : Bool} {xs xs' ys ys' : List Event}

lemma Apart.prepend (h : Apart xs ys) (zs : List Event) : Apart (zs ++ xs) (zs ++ ys) := by
  obtain ⟨i, a, b, hx, hy, hne⟩ := h
  refine ⟨zs.length + i, a, b, ?_, ?_, hne⟩
  · rw [List.getElem?_append_right (Nat.le_add_right _ _), Nat.add_sub_cancel_left, hx]
  · rw [List.getElem?_append_right (Nat.le_add_right _ _), Nat.add_sub_cancel_left, hy]

/-- What is heard in two calls after each other. -/
lemma HeardAs.join (h : HeardAs hs mixed xs ys) (h' : HeardAs hs mixed' xs' ys') :
    HeardAs hs (mixed || mixed') (xs ++ xs') (ys ++ ys') := by
  cases mixed with
  | true => exact fun hset => (h hset).append xs' ys'
  | false =>
    obtain rfl : ys = xs := h
    cases mixed' with
    | true => exact fun hset => (h' hset).prepend ys
    | false =>
      obtain rfl : ys' = xs' := h'
      rfl

lemma HeardAs.ne (h : HeardAs hs true xs ys) (hset : ∀ a, heard (·.characters) a hs = [a]) :
    ys ≠ xs := by
  rintro rfl
  obtain ⟨i, a, b, hx, hy, hne⟩ := h hset
  exact hne (Option.some.inj (hx.symm.trans hy))

end Heard

/-- The flag with an atom that was mixed up before. -/
def carry (m : Bool) (q : QuoteFlag) : QuoteFlag := { q with mixed := m || q.mixed }

section Carry

variable (m : Bool) (q : QuoteFlag) (r : Reader) (c : Byte)

lemma carry_report : (carry m q).report r = carry m (q.report r) := by
  simp only [carry, QuoteFlag.report, Bool.or_assoc]

lemma carry_leave : (carry m q).leave r = carry m (q.leave r) := by
  simp only [QuoteFlag.leave]
  split_ifs <;> rfl

lemma carry_feedGap : (carry m q).feedGap r c = carry m (q.feedGap r c) := by
  simp only [QuoteFlag.feedGap]
  split_ifs <;> rfl

lemma carry_feedBare : (carry m q).feedBare r c = carry m (q.feedBare r c) := by
  have hclear : { (carry m q).report r with kept := false } =
      carry m { q.report r with kept := false } := by
    rw [carry_report]
    rfl
  rw [QuoteFlag.feedBare, QuoteFlag.feedBare, hclear, carry_leave, carry_feedGap]
  split_ifs <;> rfl

/-- What was mixed up before does not change how the flag goes on. -/
lemma carry_feed : (carry m q).feed r c = carry m (q.feed r c) := by
  rw [QuoteFlag.feed, QuoteFlag.feed]
  cases r.lex with
  | gap => exact carry_feedGap m q r c
  | comment | quotedString => rfl
  | bare => exact carry_feedBare m q r c
  | quoted =>
    simp only [QuoteFlag.feedQuoted, carry_report, carry_leave]
    split_ifs <;> rfl
  | tick =>
    have hset : { carry m q with kept := true } = carry m { q with kept := true } := rfl
    simp only [QuoteFlag.feedTick, hset, carry_feedBare]
    split_ifs <;> rfl
  | quotedList =>
    simp only [QuoteFlag.feedQuotedList, carry_leave]
    split_ifs <;> rfl

lemma carry_follow (w : List Byte) : (carry m q).follow r w = carry m (q.follow r w) := by
  induction w generalizing q r with
  | nil => rfl
  | cons c w ih =>
    rw [QuoteFlag.follow, QuoteFlag.follow, carry_feed]
    cases (r.feed c).2 with
    | ok r' => exact ih (q.feed r c) r'
    | error e => rfl

lemma carry_across (us : List (List Byte)) : (carry m q).across r us = carry m (q.across r us) := by
  induction us generalizing q r with
  | nil => rfl
  | cons u us ih =>
    have hfollow : (carry m q).enter.follow r u = carry m (q.enter.follow r u) :=
      carry_follow m q.enter r u
    rw [QuoteFlag.across, QuoteFlag.across, hfollow]
    cases (scan r u).2 with
    | ok r' => exact ih (q.enter.follow r u) r'
    | error e => rfl

end Carry

section Calls

variable {g : Setup} {chunk : List Byte} {hs : Option Handlers} {Q : QuoteFlag} {kept : Bool}

lemma after_handlers (f : Flags) (env : Env) (l : Locals) (c : Byte) :
    (f.after env l c).handlers = f.handlers := by
  rw [Flags.after]
  cases l.state <;> dsimp only <;> try rfl
  · split_ifs <;> rfl
  · rw [Flags.stringEnd]
    split_ifs <;> rfl
  · split_ifs <;> rfl

lemma next_handlers (f : Flags) (env : Env) (l : Locals) :
    (f.next env l).handlers = f.handlers := by
  rw [Flags.next]
  cases env.buf[l.t]? with
  | none => rfl
  | some c =>
    dsimp only
    split_ifs
    · rfl
    · exact after_handlers f env l c

lemma leaves_handlers (f : Flags) (entered : Bool) (env : Env) (l : Locals) :
    (f.leaves entered env l).handlers = f.handlers := by
  rw [Flags.leaves]
  by_cases hs : l.state = .s3
  · rw [if_pos hs]
  · rw [if_neg hs]
    exact next_handlers f env l

/-- The heads of the same round of both parsers, from which the flag is about to become `Q` behind the
chunk. -/
def Joined (hs : Option Handlers) (chunk : List Byte) (Q : QuoteFlag) (env : EventEnv)
    (l e : Locals) : Prop :=
  ∃ f : Flags, f.handlers = hs ∧ Shadows f l e ∧ NormalHead l ∧
    Following chunk Q f env.cc.squoted env.toEnv l

/-- The same for what two calls return. -/
structure JoinedReturn (hs : Option Handlers) (chunk : List Byte) (Q : QuoteFlag) (entered : Bool)
    (f : Flags) (R R' : Return) : Prop where
  handlers : f.handlers = hs
  echoes : Echoes f R R'
  normal : Normal R.cc.toRegs
  left : FlagLeft chunk Q f entered R

/-- And for two ends. -/
def JoinedStop (hs : Option Handlers) (chunk : List Byte) (Q : QuoteFlag) (entered : Bool) :
    Stop → Stop → Prop
  | .ret R, .ret R' => ∃ f, JoinedReturn hs chunk Q entered f R R'
  | .fault _, .fault _ => True
  | _, _ => False

lemma joined_round {env : EventEnv} (hb : Holding env.toEnv chunk [nul]) (l e : Locals)
    (h : Joined hs chunk Q env l e) :
    Loop.Lockstep (Joined hs chunk Q env) (JoinedStop hs chunk Q env.cc.squoted)
      (cparseHead env.toEnv l) (env.eparseHead e) := by
  obtain ⟨f, hhandlers, hshadows, hnormal, hfollowing⟩ := h
  have hround := shadowed_round hb.alloc hshadows hnormal
  have hkeep := normal_cparseHead hb.alloc hnormal
  have hleads := leadsTo_round hb hshadows.squoted.symm hfollowing
  cases hrun : cparseHead env.toEnv l with
  | ok l' =>
    rw [hrun] at hround hkeep hleads
    obtain ⟨e', hrun', he'⟩ := hround.of_ok
    rw [hrun']
    exact ⟨_, (next_handlers _ _ _).trans hhandlers, he', hkeep, hleads⟩
  | error stop =>
    rw [hrun] at hround hkeep hleads
    cases hrun' : env.eparseHead e with
    | ok e' =>
      rw [hrun'] at hround
      exact hround.elim
    | error stop' =>
      rw [hrun'] at hround
      cases stop with
      | fault _ =>
        cases stop' with
        | ret _ => exact hround.elim
        | fault _ => trivial
      | ret R =>
        cases stop' with
        | fault _ => exact hround.elim
        | ret R' =>
          refine ⟨_, ?_, hround, Post.of_ret hkeep R rfl, hleads⟩
          cases R.cc.lastPos with
          | none => exact hhandlers
          | some p => exact (leaves_handlers _ _ _ _).trans hhandlers

/-- A call on the continuation of the event-only parser returns when the other one does. -/
lemma joined_call {k : Call} {cc cc' : Pcont} {L : List (List Sexp)} {R : Return}
    (hb : Holding k.env chunk [nul]) (hregs : ShadowRegs kept cc.toRegs cc'.toRegs)
    (hpos : cc'.lastPos = cc.lastPos) (hn : Normal cc.toRegs) (hi : Good cc.toRegs L)
    (h3 : cc.state ≠ .s3) (hle : cc.lastPos.getD 0 ≤ chunk.length)
    (hQ : (⟨kept, kept, false⟩ : QuoteFlag).follow (view cc.toRegs L)
      (chunk.drop (cc.lastPos.getD 0)) = Q)
    (hrun : cparseSexp k.setup (some k.buf) k.len (some cc) k.errno = .ret R) (errno' : ErrCode) :
    ∃ R' f, cparseSexp k.setup (some k.buf) k.len (some cc') errno' = .ret R' ∧
      JoinedReturn cc.eventHandlers chunk Q kept f R R' := by
  have hentered : cc'.squoted = kept := congrArg (·.squoted) hregs.frame
  have hmode : cc.mode ≠ .eventsOnly := by simp [hn.mode]
  have hstart : Joined cc.eventHandlers chunk Q { toEnv := k.env, cc := cc', errno := errno' }
      (cc.enter 0) (cc'.enter 0) := by
    refine ⟨_, rfl, hregs.enter hpos, hn.enter 0, .inl ⟨L, ⟨hi, fun _ => rfl⟩, hle, ?_, ?_⟩⟩
    · exact fun hs => absurd hs h3
    · dsimp only
      rw [hentered]
      exact hQ
  have hboth := Loop.run_lockstep (joined_round hb) hstart (fuel k.env)
  have hrun' := cparseSexp_eq_run { k with errno := errno' } cc'
  rw [cparseSexp_eq_run, Call.head, if_neg hmode] at hrun
  rw [Call.head, if_pos hregs.mode] at hrun'
  have henv : Call.env { k with errno := errno' } = k.env := rfl
  rw [henv] at hrun'
  dsimp only at hrun'
  rw [hrun']
  generalize Loop.run (cparseHead k.env) (fuel k.env) (cc.enter 0) = x,
    Loop.run (EventEnv.eparseHead _) (fuel k.env) (cc'.enter 0) = y at hrun hboth ⊢
  cases hboth with
  | none => cases hrun
  | some hstop =>
    rename_i stop stop'
    cases stop with
    | fault _ => cases hrun
    | ret R₀ =>
      cases hrun
      cases stop' with
      | fault _ => exact hstop.elim
      | ret R' =>
        rw [hentered] at hstop
        obtain ⟨f, hf⟩ := hstop
        exact ⟨R', f, rfl, hf⟩

end Calls

section Drive

variable {g : Setup} {chunk : List Byte} {rest : List (List Byte)}

lemma across_ok {q : QuoteFlag} {r r' : Reader} {out : List Tree} (h : scan r chunk = (out, .ok r')) :
    q.across r (chunk :: rest) = (q.enter.follow r chunk).across r' rest := by
  rw [QuoteFlag.across, h]

lemma across_error {q : QuoteFlag} {r : Reader} {e : ReadErr} {out : List Tree}
    (h : scan r chunk = (out, .error e)) : q.across r (chunk :: rest) = q.enter.follow r chunk := by
  rw [QuoteFlag.across, h]

/-- A call starts anew with the flag, and with no atom mixed up. -/
lemma across_enter (f : Flags) (entered : Bool) (r : Reader) (us : List (List Byte)) (hne : us ≠ []) :
    ((f.flag entered).across r us).mixed =
      (f.mixed || ((⟨f.kept, f.kept, false⟩ : QuoteFlag).across r us).mixed) := by
  have henter : (f.flag entered).across r us =
      (carry f.mixed ⟨f.kept, f.kept, false⟩).across r us := by
    cases us with
    | nil => exact absurd rfl hne
    | cons u us =>
      have hsame : (f.flag entered).enter = (carry f.mixed ⟨f.kept, f.kept, false⟩).enter := by
        simp [Flags.flag, carry, QuoteFlag.enter]
      rw [QuoteFlag.across, QuoteFlag.across, hsame]
  rw [henter, carry_across]
  rfl

/-- The run of both clients, from continuations that stand some bytes into the first chunk. -/
lemma drive_heard (hg : g.Succeeds) {n : Nat} {cc cc' : Pcont} {L : List (List Sexp)}
    {errno errno' : ErrCode} {kept : Bool} (hregs : ShadowRegs kept cc.toRegs cc'.toRegs)
    (hpos : cc'.lastPos = cc.lastPos) (hn : Normal cc.toRegs) (hi : Good cc.toRegs L)
    (h3 : cc.state ≠ .s3) {p : Nat} (hp : cc.lastPos.getD 0 = p) (hle : p ≤ chunk.length)
    (hnul : ∀ u ∈ chunk :: rest, nul ∉ u) {rs : List Return}
    (hrun : drive g n (chunk :: rest) cc errno = some rs) :
    ∃ rs', drive g n (chunk :: rest) cc' errno' = some rs' ∧
      HeardAs cc.eventHandlers
        ((⟨kept, kept, false⟩ : QuoteFlag).across (view cc.toRegs L) (chunk.drop p :: rest)).mixed
        (callbacksOf rs) (callbacksOf rs') := by
  induction n generalizing chunk rest cc cc' L errno errno' kept p rs with
  | zero => cases hrun
  | succ n ih =>
    have hb : Holding (Call.env ⟨g, chunk ++ [nul], chunk.length, errno⟩) chunk [nul] :=
      ⟨hg, rfl, Nat.le_refl _, .inl rfl, by simp, hnul chunk (by simp)⟩
    have hle' : cc.lastPos.getD 0 ≤ chunk.length := by rwa [hp]
    obtain ⟨s, hcall, hends⟩ := call_ends (k := ⟨g, chunk ++ [nul], chunk.length, errno⟩) hb hi h3
      hle'
    have hjoin := fun R hR => @joined_call chunk _ kept ⟨g, chunk ++ [nul], chunk.length, errno⟩
      cc cc' L R hb hregs hpos hn hi h3 hle' rfl hR errno'
    rw [hp] at hends hjoin
    have henter : (⟨kept, kept, false⟩ : QuoteFlag).enter = ⟨kept, kept, false⟩ := rfl
    generalize hscan : scan (view cc.toRegs L) (chunk.drop p) = q at hends
    cases hends with
    | more R L' hgood hq htree herror herrno hnone hcursor h3' =>
      obtain ⟨R', f, hcall', hhandlers, hechoes, hnormal, hleft⟩ := hjoin R hcall
      have hne : R.cc.error ≠ .badForm := by simp [herror]
      have hnone' : R'.cc.lastPos = none := hechoes.lastPos.trans hnone
      rw [drive_next hcall hne hnone] at hrun
      rw [drive_next hcall' (mt hechoes.badForm.mp hne) hnone']
      obtain ⟨rs, hrest, rfl⟩ := Option.map_eq_some_iff.mp hrun
      rw [hq] at hscan
      rw [across_ok hscan, henter, hleft.more hne hnone]
      cases rest with
      | nil =>
        obtain rfl : [] = rs := Option.some.inj (by simpa [drive] using hrest)
        refine ⟨[R'], by simp [drive], ?_⟩
        rw [← hhandlers]
        simpa [callbacksOf, QuoteFlag.across, Flags.flag] using hechoes.heard
      | cons chunk' rest =>
        have hzero : R.cc.lastPos.getD 0 = 0 := by simp [hnone]
        have hnul' : ∀ u ∈ chunk' :: rest, nul ∉ u :=
          fun u hu => hnul u (List.mem_cons_of_mem _ hu)
        obtain ⟨rs', hrest', hheard⟩ := @ih chunk' rest R.cc R'.cc L' R.errno R'.errno f.kept
          (hechoes.regs hne) hechoes.lastPos hnormal hgood h3' 0 hzero (Nat.zero_le _) hnul' rs hrest
        rw [List.drop_zero, hechoes.handlers] at hheard
        rw [across_enter _ _ _ _ (List.cons_ne_nil _ _), hrest', ← hhandlers]
        exact ⟨_, rfl, hechoes.heard.join hheard⟩
    | tree R x p' hr hp' hq =>
      obtain ⟨R', f, hcall', hhandlers, hechoes, hnormal, hleft⟩ := hjoin R hcall
      have hne : R.cc.error ≠ .badForm := by simp [hr.error]
      have hpos : R.cc.lastPos.getD 0 = p' := by simp [hr.lastPos]
      have h3' : R.cc.state ≠ .s3 := by simp [hr.idle.state]
      rw [drive_again hcall hne hr.lastPos] at hrun
      rw [drive_again hcall' (mt hechoes.badForm.mp hne) (hechoes.lastPos.trans hr.lastPos)]
      obtain ⟨rs, hrest, rfl⟩ := Option.map_eq_some_iff.mp hrun
      obtain ⟨rs', hrest', hheard⟩ := @ih chunk rest R.cc R'.cc [] R.errno R'.errno f.kept
        (hechoes.regs hne) hechoes.lastPos hnormal hr.idle.good h3' p' hpos hp' hnul rs hrest
      rw [hr.idle.start, hechoes.handlers] at hheard
      have hacross :
          (⟨kept, kept, false⟩ : QuoteFlag).across (view cc.toRegs L) (chunk.drop p :: rest) =
            (f.flag f.kept).across Reader.start (chunk.drop p' :: rest) := by
        have hsame : (scan (view cc.toRegs L) (chunk.drop p)).2 =
            (scan Reader.start (chunk.drop p')).2 := by rw [hscan, hq]
        have hflag : (f.flag f.kept).enter = f.flag f.kept := rfl
        rw [QuoteFlag.across, QuoteFlag.across, henter, hflag, hsame, hleft.again hne p' hr.lastPos]
      rw [hacross, across_enter _ _ _ _ (List.cons_ne_nil _ _), hrest', ← hhandlers]
      exact ⟨_, rfl, hechoes.heard.join hheard⟩
    | bad R hr hq =>
      obtain ⟨R', f, hcall', hhandlers, hechoes, -, hleft⟩ := hjoin R hcall
      rw [drive_bad hcall hr.error] at hrun
      obtain rfl : [R] = rs := Option.some.inj hrun
      rw [hq] at hscan
      refine ⟨[R'], drive_bad hcall' (hechoes.badForm.mpr hr.error), ?_⟩
      rw [across_error hscan, henter, hleft.bad hr.error, ← hhandlers]
      simpa [callbacksOf] using hechoes.heard
    | stray hq =>
      rw [drive_fault hcall] at hrun
      cases hrun
    | overrun s r hq hpair hlex hs =>
      rw [hs rfl] at hcall
      rw [drive_fault hcall] at hrun
      cases hrun

/-- A new continuation with handlers. -/
lemma good_listening (g : Setup) (hs : Option Handlers) :
    Good { Pcont.new g with eventHandlers := hs }.toRegs [] := by
  obtain ⟨hbuffer, hmode, htext, hplain, hquoted, hstack, hdepth, htextual, hsealed⟩ := good_new g
  exact ⟨⟨⟨hbuffer.room.cells, hbuffer.room.free⟩, hbuffer.token⟩, hmode, htext, hplain, hquoted,
    hstack, hdepth, htextual, hsealed⟩

lemma view_listening (g : Setup) (hs : Option Handlers) :
    view { Pcont.new g with eventHandlers := hs }.toRegs [] = Reader.start := view_new g

/-- The client of the tree-building parser. -/
lemma listening_delivers (hg : g.Succeeds) (hs : Option Handlers) {chunks : List (List Byte)}
    (hne : chunks ≠ []) (hnul : ∀ u ∈ chunks, nul ∉ u) :
    Delivers Reader.start chunks
      (drive g (callBound chunks) chunks { Pcont.new g with eventHandlers := hs } .ok) := by
  cases chunks with
  | nil => exact absurd rfl hne
  | cons chunk rest =>
    have hlen := scan_length Reader.start (chunk :: rest).flatten
    have hbound : (scan Reader.start (chunk.drop 0 :: rest).flatten).1.length + rest.length <
        callBound (chunk :: rest) := by
      rw [List.drop_zero, callBound, List.length_cons]
      omega
    have h := @drive_spec g chunk rest hg (callBound (chunk :: rest)) _ [] .ok (good_listening g hs)
      (by simp [Pcont.new]) 0 rfl (Nat.zero_le _) hnul
    rw [view_listening] at h
    exact h hbound

/-- What the client of the event-only parser hears besides. -/
lemma listening_heard (hg : g.Succeeds) (hs : Option Handlers) {chunks : List (List Byte)}
    (hne : chunks ≠ []) (hnul : ∀ u ∈ chunks, nul ∉ u) {rs : List Return}
    (hrun : drive g (callBound chunks) chunks { Pcont.new g with eventHandlers := hs } .ok =
      some rs) :
    ∃ rs', drive g (callBound chunks) chunks
        { Pcont.new g with mode := .eventsOnly, eventHandlers := hs } .ok = some rs' ∧
      HeardAs hs (QuoteFlag.start.across Reader.start chunks).mixed (callbacksOf rs)
        (callbacksOf rs') := by
  cases chunks with
  | nil => exact absurd rfl hne
  | cons chunk rest =>
    have h := @drive_heard g chunk rest hg (callBound (chunk :: rest)) _ _ [] .ok .ok false
      (shadowRegs_new g hs) rfl (shadowConts_new g hs).normal (good_listening g hs)
      (by simp [Pcont.new]) 0 rfl (Nat.zero_le _) hnul rs hrun
    rwa [view_listening] at h

/-- The callbacks of the event-only parser and of the tree-building one are defined and the same,
exactly when no escaped byte is stray, no chunk ends behind an escape pair inside double quotes and no
atom is mixed up. -/
theorem same_callbacks (hg : g.Succeeds) (chunks : List (List Byte)) (hnul : ∀ u ∈ chunks, nul ∉ u) :
    (∃ rs rs',
        drive g (callBound chunks) chunks
            { Pcont.new g with eventHandlers := some allHandlers } .ok = some rs ∧
          drive g (callBound chunks) chunks
            { Pcont.new g with mode := .eventsOnly, eventHandlers := some allHandlers } .ok =
              some rs' ∧
          callbacksOf rs' = callbacksOf rs) ↔
      StrayFree chunks.flatten ∧ (∀ n, ¬ EndsInPair (chunks.take n).flatten) ∧
        (QuoteFlag.start.across Reader.start chunks).mixed = false := by
  by_cases hne : chunks = []
  · subst hne
    refine ⟨fun _ => ⟨?_, ?_, rfl⟩, fun _ => ⟨[], [], by simp [drive], by simp [drive], rfl⟩⟩
    · exact fun h => by cases h
    · rintro n ⟨r, hr, hpair⟩
      rw [List.take_nil] at hr
      cases hr
      cases hpair
  · have hclean := clean_iff Reader.start rfl chunks
    have hdelivers := listening_delivers hg (some allHandlers) hne hnul
    have hheard := fun rs => @listening_heard g hg (some allHandlers) chunks hne hnul rs
    constructor
    · rintro ⟨rs, rs', hrs, hrs', hsame⟩
      have hyes : Clean Reader.start chunks := by
        by_contra hno
        rw [hdelivers.2 hno] at hrs
        cases hrs
      obtain ⟨hstray, hends⟩ := hclean.mp hyes
      obtain ⟨rs'', hrs'', halike⟩ := hheard rs hrs
      obtain rfl : rs' = rs'' := Option.some.inj (hrs'.symm.trans hrs'')
      refine ⟨hstray, hends, eq_false_of_ne_true fun hmixed => ?_⟩
      rw [hmixed] at halike
      exact halike.ne (by simp [heard, allHandlers]) hsame
    · rintro ⟨hstray, hends, hmixed⟩
      obtain ⟨rs, hrs, -⟩ := hdelivers.1 (hclean.mpr ⟨hstray, hends⟩)
      obtain ⟨rs', hrs', halike⟩ := hheard rs hrs
      rw [hmixed] at halike
      exact ⟨rs, rs', hrs, hrs', halike⟩

end Drive

/-- The string `'"a" (b)` cut inside its first atom. -/
theorem same_callbacks_string :
    ∃ rs rs',
      drive .plain (callBound [[tick, dquote, 97], [dquote, space, lparen, 98, rparen]])
          [[tick, dquote, 97], [dquote, space, lparen, 98, rparen]]
          { Pcont.new .plain with eventHandlers := some allHandlers } .ok = some rs ∧
        drive .plain (callBound [[tick, dquote, 97], [dquote, space, lparen, 98, rparen]])
          [[tick, dquote, 97], [dquote, space, lparen, 98, rparen]]
          { Pcont.new .plain with mode := .eventsOnly, eventHandlers := some allHandlers } .ok =
            some rs' ∧
        callbacksOf rs' = callbacksOf rs := by
  refine (@same_callbacks .plain (fun _ => rfl)
    [[tick, dquote, 97], [dquote, space, lparen, 98, rparen]] (by decide)).mpr ⟨?_, ?_, by decide⟩
  · exact fun h => by cases h
  · rintro n ⟨r, hr, hpair⟩
    match n with
    | 0 | 1 =>
      cases hr
      cases hpair
    | n + 2 =>
      rw [List.take_of_length_le (Nat.le_add_left 2 n)] at hr
      cases hr
      cases hpair

/-- The string `('"a" b)`, in which a bare atom follows a single-quoted string. -/
def quotedThenBare : List Byte := [lparen, tick, dquote, 97, dquote, space, 98, rparen]

/-- The event-only parser reports `b` as a single-quoted atom. -/
theorem callbacks_differ :
    (drive .plain (callBound [quotedThenBare]) [quotedThenBare]
        { Pcont.new .plain with eventHandlers := some allHandlers } .ok).map callbacksOf =
      some [.startSexpr, .characters [dquote, 97, dquote, nul] 4 .squote,
        .characters [98, nul] 2 .basic, .endSexpr] ∧
    (drive .plain (callBound [quotedThenBare]) [quotedThenBare]
        { Pcont.new .plain with mode := .eventsOnly, eventHandlers := some allHandlers } .ok).map
        callbacksOf =
      some [.startSexpr, .characters [dquote, 97, dquote, nul] 4 .squote,
        .characters [98, nul] 2 .squote, .endSexpr] := by
  decide +kernel

end Sfsexp.Proofs
