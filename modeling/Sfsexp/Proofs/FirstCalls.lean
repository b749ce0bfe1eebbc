import Sfsexp.Proofs.ParseSexp
import Sfsexp.Proofs.PlainSessions

/-!
# The first call on a text

The head at which a call with a new continuation returns, and the states it leaves: behind an opening
paren between tokens state 2, and depth 0 after a closing paren without an opening one.
-/

namespace Sfsexp.Proofs

open Sfsexp Spec Reader

section Reader

variable {r r' : Reader}

/-- An escaped byte does not end a token. -/
lemma lex_of_escape {c : Byte} (h : r.escape c = ([], .ok r')) : r'.lex = r.lex := by
  rw [escape] at h
  split at h
  · cases h
  · cases h
    rfl

/-- An opening paren between tokens opens a list. -/
lemma levels_of_paren (hfeed : r.feed lparen = ([], .ok r')) (hgap : r'.lex = .gap) :
    r'.levels.length = r.levels.length + 1 := by
  obtain ⟨lex, squoted, esc, pair, qdepth, text, levels⟩ := r
  cases lex with
  | gap =>
    cases hfeed
    rfl
  | bare =>
    change Reader.feedBare ⟨.bare, squoted, esc, false, qdepth, text, levels⟩ lparen = _ at hfeed
    rw [feedBare] at hfeed
    by_cases hesc : (esc && isEscapable lparen) = true
    · rw [if_pos hesc] at hfeed
      rw [lex_of_escape hfeed] at hgap
      cases hgap
    · rw [if_neg hesc, if_neg (by decide)] at hfeed
      cases levels with
      | nil => cases hfeed
      | cons T Ls =>
        cases hfeed
        rfl
  | quoted =>
    change Reader.feedQuoted ⟨.quoted, squoted, esc, false, qdepth, text, levels⟩ lparen = _ at hfeed
    rw [feedQuoted] at hfeed
    by_cases hesc : (esc && isEscapable lparen) = true
    · rw [if_pos hesc] at hfeed
      rw [lex_of_escape hfeed] at hgap
      cases hgap
    · rw [if_neg hesc, if_neg (by decide)] at hfeed
      cases hfeed
      cases hgap
  | tick =>
    cases esc <;>
      · cases hfeed
        cases hgap
  | quotedList =>
    cases esc <;>
      · cases hfeed
        cases hgap
  | comment | quotedString =>
    cases hfeed
    cases hgap

end Reader

section Calls

variable {g : Setup} {w v : List Byte} {e : ErrCode} {r : Return} {rd : Reader} {l l' : Locals}

abbrev firstEnv (g : Setup) (w : List Byte) : Env := ⟨g, w ++ [nul], w.length⟩

lemma holding_first (hg : g.Succeeds) (hnul : nul ∉ w) : Holding (firstEnv g w) w [nul] :=
  ⟨hg, rfl, Nat.le_refl _, .inl rfl, by simp, hnul⟩

/-- A return of the call, as the end of what the reader reads. -/
lemma first_ends (hg : g.Succeeds) (hnul : nul ∉ w)
    (hret : (cparseSexp g (some (w ++ [nul])) w.length none e).returnOf = some r) :
    Ends w [nul] (scan Reader.start w) (.ret r) := by
  obtain ⟨s, hcall, hends⟩ := parseSexp_first (e := e) hg hnul (List.cons_ne_nil nul [])
  rw [hcall] at hret
  cases s with
  | fault f => cases hret
  | ret R =>
    cases hret
    exact hends

/-- The head at which the call returns, with what every round before it gives. -/
lemma last_head {P : Locals → Prop} (hg : g.Succeeds) (hnul : nul ∉ w)
    (hret : (cparseSexp g (some (w ++ [nul])) w.length none e).returnOf = some r)
    (hstart : P ((Pcont.new g).enter 3))
    (hstep : ∀ l l', Ahead (firstEnv g w) w [nul] (scan Reader.start w) l →
      cparseHead (firstEnv g w) l = .ok l' → P l') :
    ∃ l, Ahead (firstEnv g w) w [nul] (scan Reader.start w) l ∧ P l ∧
      cparseHead (firstEnv g w) l = .error (.ret r) := by
  have hb := holding_first hg hnul
  have hahead : Ahead (firstEnv g w) w [nul] (scan Reader.start w) ((Pcont.new g).enter 3) := by
    refine .inl ⟨[], ⟨good_new g, fun _ => rfl⟩, Nat.zero_le _, fun hs => ?_, ?_⟩
    · cases hs
    · exact (congrArg (scan · w) (view_new g)).symm
  rw [cparseSexp, initContinuation_of_succeeds hg] at hret
  change (Result.ofStop (Loop.run (cparseHead (firstEnv g w)) (fuel (firstEnv g w))
    ((Pcont.new g).enter 3))).returnOf = some r at hret
  cases hrun : Loop.run (cparseHead (firstEnv g w)) (fuel (firstEnv g w)) ((Pcont.new g).enter 3) with
  | none =>
    rw [hrun] at hret
    cases hret
  | some s =>
    rw [hrun] at hret
    cases s with
    | fault f => cases hret
    | ret R =>
      obtain rfl : R = r := Option.some.inj hret
      obtain ⟨l, hreach, hexit⟩ := Loop.exit_of_halts ⟨_, hrun⟩
      have hstep' : ∀ s s' : Locals,
          Ahead (firstEnv g w) w [nul] (scan Reader.start w) s ∧ P s →
          cparseHead (firstEnv g w) s = .ok s' →
          Ahead (firstEnv g w) w [nul] (scan Reader.start w) s' ∧ P s' := by
        rintro s s' ⟨hs, -⟩ hnext
        have ho := onwards_head hb hs
        rw [hnext] at ho
        exact ⟨ho, hstep s s' hs hnext⟩
      obtain ⟨hl, hP⟩ := Loop.invariant_of_step hstep' ⟨hahead, hstart⟩ hreach
      exact ⟨l, hl, hP, hexit⟩

/-- The rounds of the call are in mode `PARSER_NORMAL`. -/
lemma session_of_first (hg : g.Succeeds)
    (hret : (cparseSexp g (some (w ++ [nul])) w.length none e).returnOf = some r) :
    Session NormalRound r.cc := by
  refine session_of_run hg hret fun l hl => ?_
  have hstep : ∀ s s' : Locals, NormalHead s →
      cparseHead ⟨g, w ++ [nul], w.length⟩ s = .ok s' → NormalHead s' := by
    intro s s' hs hnext
    have hround := @normal_cparseHead ⟨g, w ++ [nul], w.length⟩ s hg hs
    rwa [hnext] at hround
  have hstart : NormalHead ((Pcont.new g).enter 3) := Normal.enter (normal_new g) 3
  exact (Loop.heads_of_step hstep hstart _ l hl).normal.mode

/-- A round that returns what the reader reads is not one of a silent reader. -/
lemma not_yields {c : Byte} {u : List Byte} {s : Reader} (h : Yields c l s r)
    (hq : ([], .ok rd) = scan s (c :: u)) : False := by
  rw [scan_cons] at hq
  cases h with
  | take x hr hfeed =>
    rw [hfeed, scanOn_ok] at hq
    cases hq
  | defer x hr hfeed =>
    rw [hfeed, scanOn_cons] at hq
    cases hq
  | bad hr hfeed =>
    rw [hfeed, scanOn_error] at hq
    cases hq

variable {c : Byte} {L : List (List Sexp)}

/-- The round of a head in front of the end of the text. -/
lemma head_inside {env : Env} {tail : List Byte} (hb : Holding env w tail) (hi : GoodHead l L)
    (ht : l.t < w.length) : cparseHead env l = switch env (w.get ⟨l.t, ht⟩) l := by
  have hgo : ¬ (w.get ⟨l.t, ht⟩ = nul ∨ l.t = env.len) := by
    rintro (h | h)
    · exact hb.ne_nul ht h
    · have hlen := hb.len
      omega
  rw [cparseHead, if_neg hi.good.textual.2.2.2, Env.read, hb.get_lt ht, ok_bind, if_neg hgo]

/-- The head at the end of the text. -/
lemma head_at_end {env : Env} {tail : List Byte} (hb : Holding env w tail) (hi : GoodHead l L)
    (ht : l.t = w.length) : cparseHead env l = .error (finish env l) := by
  obtain ⟨c, hc, -⟩ := hb.get_end
  have hend : c = nul ∨ w.length = env.len := by
    rcases hb.stop with hlen | hnul
    · exact .inr hlen.symm
    · exact .inl (Option.some.inj (hc.symm.trans hnul))
  rw [cparseHead, if_neg hi.good.textual.2.2.2, Env.read, ht, hc, ok_bind, if_pos hend]

/-- At the end of a text behind an opening paren, the state between tokens is state 2. -/
def AtParen (n : Nat) (l : Locals) : Prop := l.t = n → lexOf l.state = .gap → l.state = .s2

/-- A round that takes an opening paren. -/
lemma announces_paren {env : Env} (h : env.Succeeds) (hi : GoodHead l L) (hs2 : l.state ≠ .s2)
    (hs3 : l.state ≠ .s3) {L' : List (List Sexp)} (hi' : GoodHead l' L')
    (hnext : switch env lparen l = .ok l')
    (hfeed : (view l.toRegs L).feed lparen = ([], .ok (view l'.toRegs L')))
    (hgap : lexOf l'.state = .gap) : l'.state = .s2 := by
  have hunknown : l.state ≠ .unknown := by
    intro hs
    have htoken := hi.good.buffer.token
    simp [TokenInv, hs] at htoken
  have hadds := adds_switch (c := lparen) h hunknown hs2 hs3
  rw [hnext] at hadds
  have hdepth : L'.length = L.length := by
    rw [← hi'.good.depth, ← hi.good.depth]
    exact hadds.1
  have hlevels := levels_of_paren hfeed hgap
  by_contra hs'
  simp [view, announced, hs2, hs', hdepth] at hlevels

/-- Behind an escape pair the opening paren at the end of the text is stored. -/
lemma not_gap_of_pair {env : Env} {tail : List Byte} (hb : Holding env (v ++ [lparen]) tail)
    (hi : GoodHead l L) (ht : l.t < (v ++ [lparen]).length) (hs : l.state = .s5)
    (hp : (l.esc && isEscapable ((v ++ [lparen]).get ⟨l.t, ht⟩)) = true) (hpair : rd.pair = false)
    (hq : ([], .ok rd) = scan (view l.toRegs L) ((v ++ [lparen]).drop l.t))
    (hnext : state5 env ((v ++ [lparen]).get ⟨l.t, ht⟩) l = .ok l')
    (hend : l'.t = (v ++ [lparen]).length) (hgap : lexOf l'.state = .gap) : False := by
  rw [state5, if_pos hp] at hnext
  rw [Holding.drop_cons ht, scan_cons] at hq
  rcases escaped_pair (hb.ne_nul ht) hi hs hp with
    ⟨hrun, -⟩ | ⟨l₁, hrun, hi₁, ht₁, hs₁, he₁, hfeed⟩
  · rw [hrun] at hnext
    cases hnext
  · rw [hrun, ok_bind] at hnext
    rw [hfeed, scanOn_silent] at hq
    by_cases hlast : l.t + 1 = (v ++ [lparen]).length
    · rw [hlast, List.drop_length, scan_nil] at hq
      cases hq
      cases hpair
    · have hlt : l₁.t < (v ++ [lparen]).length := by omega
      rw [Env.read, hb.get_lt hlt, ok_bind] at hnext
      have hreads := reads_state5Rest hb.alloc (hb.ne_nul hlt) hi₁ hs₁ (by simp [he₁])
      rw [hnext] at hreads
      obtain ⟨L', -, hfollows⟩ := hreads
      cases hfollows with
      | defer ht' _ _ => omega
      | take ht' hfeed' _ =>
        have htv : l₁.t = v.length := by
          rw [List.length_append, List.length_singleton] at hend
          omega
        have hc : (v ++ [lparen]).get ⟨l₁.t, hlt⟩ = lparen := by simp [htv]
        have hstored : (view l₁.toRegs L).feed lparen =
            ([], .ok ({ view l₁.toRegs L with pair := false }.push lparen)) := by
          simp [Reader.feed, feedLex, feedQuoted, view, hs₁, he₁, lexOf,
            show lparen ≠ dquote by decide]
        rw [hc, hstored] at hfeed'
        have hlex := congrArg Reader.lex (Except.ok.inj (Prod.mk.inj hfeed').2)
        have hview : lexOf l₁.state = lexOf l'.state := hlex
        rw [hgap, hs₁] at hview
        cases hview

lemma atParen_step {env : Env} {tail : List Byte} (hb : Holding env (v ++ [lparen]) tail)
    (hpair : rd.pair = false) (ha : Ahead env (v ++ [lparen]) tail ([], .ok rd) l)
    (hnext : cparseHead env l = .ok l') : AtParen (v ++ [lparen]).length l' := by
  intro hend hgap
  rcases ha with ⟨L, hi, hle, h3, hq⟩ | ⟨r, hq, hpair', -⟩
  · rcases Nat.lt_or_eq_of_le hle with ht | ht
    · rw [head_inside hb hi ht] at hnext
      obtain ⟨c, hc⟩ : ∃ c, c = (v ++ [lparen]).get ⟨l.t, ht⟩ := ⟨_, rfl⟩
      have hlast : l'.t = l.t + 1 → c = lparen := by
        intro htake
        have htv : l.t = v.length := by
          rw [List.length_append, List.length_singleton] at hend
          omega
        rw [hc]
        simp [htv]
      have hne : c ≠ nul := hc ▸ hb.ne_nul ht
      rw [← hc] at hnext
      by_cases hs5 : l.state = .s5 ∧ (l.esc && isEscapable c) = true
      · -- the byte behind the escaped one is stored as well
        rw [switch, hs5.1] at hnext
        exact (not_gap_of_pair hb hi ht hs5.1 (hc ▸ hs5.2) hpair hq (hc ▸ hnext) hend hgap).elim
      · have h5 : l.state = .s5 → (l.esc && isEscapable c) = false := by
          intro hs
          rw [← Bool.not_eq_true]
          exact fun h => hs5 ⟨hs, h⟩
        have hparen : l.state = .s3 → c = rparen := by
          intro hs
          have hget := (h3 hs).2
          rw [hb.get_lt ht, ← hc] at hget
          exact Option.some.inj hget
        have hreads := reads_switch hb.alloc hne hi hparen h5
        rw [hnext] at hreads
        obtain ⟨L', hi', hfollows⟩ := hreads
        cases hfollows with
        | defer ht' _ _ => omega
        | take ht' hfeed _ =>
          obtain rfl := hlast ht'
          by_cases hs2 : l.state = .s2
          · obtain ⟨s, k, hrun, -⟩ := state2_ok hb.alloc hi.good.stack
            rw [switch, hs2] at hnext
            dsimp only at hnext
            rw [hrun] at hnext
            cases hnext
            simp at ht'
          · by_cases hs3 : l.state = .s3
            · have hr := hparen hs3
              cases hr
            · exact announces_paren hb.alloc hi hs2 hs3 hi' hnext hfeed hgap
    · rw [head_at_end hb hi ht] at hnext
      cases hnext
  · cases hq
    rw [hpair] at hpair'
    cases hpair'

/-- Rounds other than those of the parens return a completed atom. -/
lemma errno_of_switch {env : Env} (h : env.Succeeds) (hi : GoodHead l L) (hs2 : l.state ≠ .s2)
    (hs3 : l.state ≠ .s3) (hexit : switch env c l = .error (.ret r)) : r.errno = .ok := by
  have hunknown : l.state ≠ .unknown := by
    intro hs
    have htoken := hi.good.buffer.token
    simp [TokenInv, hs] at htoken
  have hadds := adds_switch (c := c) h hunknown hs2 hs3
  rw [hexit] at hadds
  exact hadds.2.2.2.2

lemma stays_state2 {env : Env} (h : env.Succeeds) (hi : GoodHead l L) (hs : l.state = .s2)
    (hexit : switch env c l = .error (.ret r)) : False := by
  obtain ⟨s, k, hrun, -⟩ := state2_ok h hi.good.stack
  rw [switch, hs] at hexit
  dsimp only at hexit
  rw [hrun] at hexit
  cases hexit

/-- A closing paren returns at depth 0. -/
lemma depth_of_state3 (hi : GoodHead l L) (hexit : state3 l = .error (.ret r)) : r.cc.depth = 0 := by
  cases L with
  | nil =>
    rw [state3_bad hi.good.depth] at hexit
    cases hexit
    exact hi.good.depth
  | cons T Ls =>
    cases Ls with
    | nil =>
      obtain ⟨s, hout, -⟩ := state3_outer hi.good.stack hi.good.depth
      rw [hout] at hexit
      cases hexit
      rfl
    | cons T' Ls =>
      obtain ⟨s, hin, -⟩ := state3_inner hi.good.stack hi.good.depth
      rw [hin] at hexit
      cases hexit

/-- With all lists closed a call that reaches the end of its text waits for more. -/
lemma errno_at_end {env : Env} (hi : GoodHead l L) (hexit : finish env l = .ret r) :
    r.errno = .incomplete ∧ r.cc.state = l.state := by
  have hopen : ¬ (l.depth = 0 ∧ 0 < l.elts) := by
    rintro ⟨hd, he⟩
    have hL : L = [] := List.eq_nil_of_length_eq_zero (hi.good.depth.symm.trans hd)
    have hfresh := hi.fresh hL
    omega
  rw [finish, if_neg hopen] at hexit
  cases hread : env.buf[l.t]? with
  | none =>
    rw [hread] at hexit
    cases hexit
  | some c =>
    rw [hread] at hexit
    cases hexit
    exact ⟨rfl, rfl⟩

/-- Behind an opening paren between tokens the list is announced. -/
lemma state_of_paren (hg : g.Succeeds) (hnul : nul ∉ v ++ [lparen])
    (hscan : scan Reader.start (v ++ [lparen]) = ([], .ok rd)) (hpair : rd.pair = false)
    (hgap : rd.lex = .gap)
    (hret : (cparseSexp g (some (v ++ [lparen] ++ [nul])) (v ++ [lparen]).length none e).returnOf =
      some r) : r.cc.state = .s2 := by
  have hb := holding_first hg hnul
  have hends := first_ends hg hnul hret
  have hstart : AtParen (v ++ [lparen]).length ((Pcont.new g).enter 3) := by
    intro hend
    have hzero : (v ++ [lparen]).length = 0 := hend.symm
    simp at hzero
  obtain ⟨l, ha, hl, hexit⟩ := last_head hg hnul hret hstart fun l l' ha hnext => by
    rw [hscan] at ha
    exact atParen_step hb hpair ha hnext
  rw [hscan] at ha hends
  have hwait : r.errno = .incomplete := by
    cases hends with
    | more R L hgood hq htree herror herrno hpos hcursor h3 => exact herrno
    | tree R x p hr hp hq => cases hq
    | bad R hr hq => cases hq
    | overrun s r' hq hpair' hlex hs =>
      cases hq
      rw [hpair] at hpair'
      cases hpair'
  rcases ha with ⟨L, hi, hle, h3, hq⟩ | ⟨r', hq, hpair', -⟩
  · rcases Nat.lt_or_eq_of_le hle with ht | ht
    · rw [head_inside hb hi ht] at hexit
      by_cases hs2 : l.state = .s2
      · exact (stays_state2 hg hi hs2 hexit).elim
      · by_cases hs3 : l.state = .s3
        · have hparen : (v ++ [lparen]).get ⟨l.t, ht⟩ = rparen := by
            have hget := (h3 hs3).2
            rw [hb.get_lt ht] at hget
            exact Option.some.inj hget
          have hreads := reads_state3 hparen hi hs3
          rw [switch, hs3] at hexit
          dsimp only at hexit
          rw [hexit] at hreads
          rw [Holding.drop_cons ht] at hq
          exact (not_yields hreads hq).elim
        · have hok := errno_of_switch hg hi hs2 hs3 hexit
          rw [hok] at hwait
          cases hwait
    · rw [ht, List.drop_length, scan_nil] at hq
      cases hq
      rw [head_at_end hb hi ht] at hexit
      rw [(errno_at_end hi (Except.error.inj hexit)).2]
      exact hl ht hgap
  · cases hq
    rw [hpair] at hpair'
    cases hpair'

/-- A closing paren without an opening one is read at depth 0. -/
lemma depth_of_badForm (hg : g.Succeeds) (hnul : nul ∉ w)
    (hret : (cparseSexp g (some (w ++ [nul])) w.length none e).returnOf = some r)
    (hbad : r.errno = .badForm) : r.cc.depth = 0 := by
  have hb := holding_first hg hnul
  obtain ⟨l, ha, -, hexit⟩ := last_head (P := fun _ => True) hg hnul hret trivial fun _ _ _ _ => trivial
  rcases ha with ⟨L, hi, hle, h3, -⟩ | ⟨r', hq, hpair, hlex, htail, -, -⟩
  · rcases Nat.lt_or_eq_of_le hle with ht | ht
    · rw [head_inside hb hi ht] at hexit
      by_cases hs2 : l.state = .s2
      · exact (stays_state2 hg hi hs2 hexit).elim
      · by_cases hs3 : l.state = .s3
        · rw [switch, hs3] at hexit
          exact depth_of_state3 hi hexit
        · have hok := errno_of_switch hg hi hs2 hs3 hexit
          rw [hok] at hbad
          cases hbad
    · rw [head_at_end hb hi ht] at hexit
      rw [(errno_at_end hi (Except.error.inj hexit)).1] at hbad
      cases hbad
  · obtain ⟨ht, hs⟩ := htail rfl
    have hnone : (firstEnv g w).buf[l.t]? = none := by simp [ht]
    rw [cparseHead, if_neg (by simp [hs]), Env.read, hnone] at hexit
    cases hexit

end Calls

end Sfsexp.Proofs
