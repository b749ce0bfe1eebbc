import Sfsexp.Proofs.Refinement
import Sfsexp.Proofs.Termination

/-!
# A call reads the rest of its chunk

A call of `cparse_sexp` in mode `PARSER_NORMAL` gives back the first tree that the reader puts out
on the bytes ahead, or what the reader stops with, unless the chunk ends behind an escape pair
inside double quotes.
-/

namespace Sfsexp.Proofs

open Sfsexp Spec Reader

/-- The chunk is in memory, and `tail` is what lies behind it. The length passed ends the chunk, or
a NUL in front of `bufEnd` does. -/
structure Holding (env : Env) (chunk tail : List Byte) : Prop where
  alloc : env.Succeeds
  buf : env.buf = chunk ++ tail
  len : chunk.length ≤ env.len
  stop : env.len = chunk.length ∨ env.buf[chunk.length]? = some nul
  behind : tail ≠ []
  noNul : nul ∉ chunk

/-- The ways in which a call ends that should read `q`. -/
inductive Ends (chunk tail : List Byte) (q : Outcome) : Stop → Prop where
  | more (R : Return) (L : List (List Sexp)) (hgood : Good R.cc.toRegs L)
      (hq : q = ([], .ok (view R.cc.toRegs L))) (htree : R.cc.lastSexp = [])
      (herror : R.cc.error = .incomplete) (herrno : R.errno = .incomplete)
      (hpos : R.cc.lastPos = none) (hcursor : R.cursor = chunk.length)
      (h3 : R.cc.state ≠ .s3) : Ends chunk tail q (.ret R)
  | tree (R : Return) (x : Sexp) (p : Nat) (hr : TreeReturn x p R) (hp : p ≤ chunk.length)
      (hq : q = (x.tree :: (scan Reader.start (chunk.drop p)).1,
        (scan Reader.start (chunk.drop p)).2))
      (hlast : p = chunk.length → ∀ c, chunk.getLast? = some c → isWhite c = false) :
      Ends chunk tail q (.ret R)
  | bad (R : Return) (hr : BadReturn R) (hq : q = ([], .error .badForm))
      (hparen : chunk[R.cursor]? = some rparen) : Ends chunk tail q (.ret R)
  | stray (hq : q = ([], .error .stray)) : Ends chunk tail q (.fault .atomBuffer)
  | overrun (s : Stop) (r : Reader) (hq : q = ([], .ok r)) (hpair : r.pair = true)
      (hlex : r.lex = .quoted) (hs : tail = [nul] → s = .fault .input)
      (hbehind : ∀ R, s = .ret R → chunk.length < R.cursor) : Ends chunk tail q s

/-- At a loop head the reader is about to read what is left of the chunk, or the cursor is already
behind the chunk. -/
def Ahead (env : Env) (chunk tail : List Byte) (q : Outcome) (l : Locals) : Prop :=
  (∃ L, GoodHead l L ∧ l.t ≤ chunk.length ∧
      (l.state = .s3 → l.t < chunk.length ∧ env.buf[l.t]? = some rparen) ∧
      q = scan (view l.toRegs L) (chunk.drop l.t)) ∨
    ∃ r, q = ([], .ok r) ∧ r.pair = true ∧ r.lex = .quoted ∧
      (tail = [nul] → l.t = chunk.length + 1 ∧ l.state = .s5) ∧
      chunk.length < l.t ∧ Sane l.toRegs

section Chunk

variable {env : Env} {chunk tail : List Byte} {l : Locals} {c : Byte} {L : List (List Sexp)}

lemma Holding.get_lt (hb : Holding env chunk tail) {t : Nat} (ht : t < chunk.length) :
    env.buf[t]? = some (chunk.get ⟨t, ht⟩) := by
  rw [hb.buf, List.getElem?_append_left ht]
  simp

lemma Holding.get_end (hb : Holding env chunk tail) :
    ∃ c, env.buf[chunk.length]? = some c ∧ (tail = [nul] → c = nul) := by
  have hlt : chunk.length < env.buf.length := by
    rw [hb.buf, List.length_append]
    have := List.length_pos_iff.mpr hb.behind
    omega
  refine ⟨_, List.getElem?_eq_getElem hlt, fun htail => ?_⟩
  have hbuf := hb.buf
  rw [htail] at hbuf
  simp [hbuf]

lemma Holding.drop_cons (ht : l.t < chunk.length) :
    chunk.drop l.t = chunk.get ⟨l.t, ht⟩ :: chunk.drop (l.t + 1) := by
  rw [List.drop_eq_getElem_cons ht]
  simp

lemma Holding.ne_nul (hb : Holding env chunk tail) (ht : l.t < chunk.length) :
    chunk.get ⟨l.t, ht⟩ ≠ nul := by
  intro hnul
  exact hb.noNul (hnul ▸ List.get_mem chunk ⟨l.t, ht⟩)

/-- A round that does what the reader does with the byte leads to where the reader is ahead. -/
lemma Follows.ahead {r r' : Reader} {l' : Locals} {u : List Byte} (hu : chunk.drop l.t = c :: u)
    (hf : Follows c l r l' r') : scan r (chunk.drop l.t) = scan r' (chunk.drop l'.t) := by
  have hu' : chunk.drop (l.t + 1) = u := by
    rw [← List.drop_drop, hu]
    rfl
  cases hf with
  | defer ht hfeed h3 => rw [ht, hu, scan_cons, scan_cons, hfeed]
  | take ht hfeed h3 => rw [ht, hu', hu, scan_cons, hfeed, scanOn_silent]

lemma Yields.ends {r : Reader} {R : Return} {u : List Byte} (hu : chunk.drop l.t = c :: u)
    (ht : l.t < chunk.length) (hy : Yields c l r R) :
    Ends chunk tail (scan r (chunk.drop l.t)) (.ret R) := by
  have hu' : chunk.drop (l.t + 1) = u := by
    rw [← List.drop_drop, hu]
    rfl
  cases hy with
  | take x hr hfeed hc =>
    refine .tree R x _ hr ht ?_ fun hlast c' hc' => ?_
    · rw [hu, scan_cons, hfeed, scanOn_cons, scanOn_silent, hu']
    · have hone : u = [] := by
        rw [← hu', hlast, List.drop_length]
      have hdrop : (chunk.drop l.t).getLast? = chunk.getLast? :=
        List.getLast?_drop.trans (if_neg (by omega))
      rw [hu, hone, hc'] at hdrop
      obtain rfl : c = c' := Option.some.inj hdrop
      exact hc
  | defer x hr hfeed =>
    refine .tree R x _ hr (Nat.le_of_lt ht) ?_ fun hlast => absurd hlast (Nat.ne_of_lt ht)
    rw [hu, scan_cons, scan_cons, hfeed, scanOn_cons]
  | bad hr hfeed hcursor hc =>
    refine .bad R hr ?_ ?_
    · rw [hu, scan_cons, hfeed, scanOn_error]
    · rw [hcursor, ← List.head?_drop, hu, hc]
      rfl

/-- `l₁` is `l` after the escaped byte `c` was stored inside double quotes. -/
lemma escaped_pair (hc : c ≠ nul) (hi : GoodHead l L) (hs : l.state = .s5)
    (hp : (l.esc && isEscapable c) = true) :
    (overwrite c l = .error (.fault .atomBuffer) ∧
        (view l.toRegs L).feed c = ([], .error .stray)) ∨
      ∃ l₁, overwrite c l = .ok l₁ ∧ GoodHead l₁ L ∧ l₁.t = l.t + 1 ∧ l₁.state = .s5 ∧
        l₁.esc = false ∧
        (view l.toRegs L).feed c = ([], .ok { view l₁.toRegs L with pair := true }) := by
  obtain ⟨hv, -⟩ := hi.good.buffer.cursor (by simp [hs, accumulates])
  have hr := hi.good.buffer.room
  have hq : l.qdepth = 0 := by simpa [hs] using hi.good.unquoted
  have hfeed : (view l.toRegs L).feed c = { view l.toRegs L with pair := true }.escape c := by
    have hlex : (view l.toRegs L).feed c = (view l.toRegs L).feedQuoted c := by
      simp [Reader.feed, feedLex, view, hs, lexOf]
    have hp' : ((view l.toRegs L).esc && isEscapable c) = true := hp
    rw [hlex, feedQuoted, if_pos hp']
  rcases @overwrite_cases l c hr hv with ⟨hnil, hrun⟩ | ⟨v, hrun, hlen, hne, htext⟩
  · exact .inl ⟨hrun, hfeed.trans (escape_nil hnil)⟩
  · refine .inr ⟨_, hrun, ⟨⟨⟨⟨hlen, hr.free⟩, by simp [TokenInv, hs, hv]⟩, hi.good.mode, ?_,
      .inr (.inl hs), .inr (.inr hq), hi.good.stack, hi.good.depth, hi.good.textual, hi.good.sealed⟩, hi.fresh⟩,
      rfl, hs, rfl, ?_⟩
    · dsimp only
      rw [htext]
      exact mem_of_mem_dropLast_concat hi.good.noNul hc
    · rw [hfeed, escape_ne_nil hne]
      simp [view, hs, htext]

/-- How a round from a head with `Ahead` ends. -/
abbrev Onwards (env : Env) (chunk tail : List Byte) (q : Outcome) : Exec Locals → Prop :=
  Post (Ahead env chunk tail q) (fun R => Ends chunk tail q (.ret R))
    fun f => Ends chunk tail q (.fault f)

lemma Reads.onwards {r : Reader} {q : Outcome} {x : Exec Locals} (hb : Holding env chunk tail)
    (ht : l.t < chunk.length) (hc : chunk.get ⟨l.t, ht⟩ = c) (h : Reads c l r x)
    (hq : q = scan r (chunk.drop l.t)) : Onwards env chunk tail q x := by
  have hu : chunk.drop l.t = c :: chunk.drop (l.t + 1) := by
    rw [Holding.drop_cons ht, hc]
  match x, h with
  | .ok l', ⟨L', hgood, hfollows⟩ =>
    refine .inl ⟨L', hgood, ?_, ?_, hq.trans (hfollows.ahead hu)⟩
    · cases hfollows with
      | defer ht' hfeed h3 =>
        rw [ht']
        exact Nat.le_of_lt ht
      | take ht' hfeed h3 =>
        rw [ht']
        exact ht
    · intro hs3
      cases hfollows with
      | defer ht' hfeed h3 =>
        rw [ht', hb.get_lt ht, hc, h3 hs3]
        exact ⟨ht, rfl⟩
      | take ht' hfeed h3 => exact absurd hs3 h3
  | .error (.ret R), hy =>
    rw [hq]
    exact Yields.ends hu ht hy
  | .error (.fault f), ⟨hf, hfeed⟩ =>
    rw [hf]
    refine .stray ?_
    rw [hq, hu, scan_cons, hfeed, scanOn_error]

/-- A round that leads behind the place `t`. -/
abbrev Beyond (t : Nat) : Exec Locals → Prop :=
  Post (fun l' => t < l'.t ∧ Sane l'.toRegs) (fun R => t < R.cursor) fun _ => True

lemma beyond_head {t : Nat} (ht : t < l.t) (hsane : Sane l.toRegs) :
    Beyond t (cparseHead env l) := by
  refine (moves_cparseHead hsane).mono ?_ ?_
  · rintro l' ⟨hm, -⟩
    exact ⟨Nat.lt_of_lt_of_le ht hm.low, hm.sane⟩
  · rintro R hm
    exact Nat.lt_of_lt_of_le ht hm.low

/-- The quote that ends a string is not left for the next call. -/
lemma not_deferred (hs : l.state = .s5) (hesc : (l.esc && isEscapable c) = false) (hd : c = dquote)
    (x : Tree) :
    (view l.toRegs L).feed c ≠ (x :: (Reader.start.feed c).1, (Reader.start.feed c).2) := by
  have hlex : (view l.toRegs L).feed c = (view l.toRegs L).feedQuoted c := by
    simp [Reader.feed, feedLex, view, hs, lexOf]
  have hesc' : ((view l.toRegs L).esc && isEscapable c) = false := hesc
  have hstart : (Reader.start.feed c).2 = .ok { Reader.start with lex := .quoted } := by
    rw [hd]
    rfl
  rw [hlex, feedQuoted, hesc', if_neg (by simp), if_pos hd, hstart]
  intro heq
  have hread := congrArg Prod.snd heq
  split_ifs at hread
  all_goals
    rw [finishAtom] at hread
    split at hread <;> cases hread

/-- A byte inside double quotes is stepped over. -/
lemma beyond_state5Rest (h : env.Succeeds) (hi : GoodHead l L) (hs : l.state = .s5)
    (hesc : (l.esc && isEscapable c) = false) : Beyond l.t (state5Rest env c l) := by
  have hmoves := @moves_state5Rest env l c l 1 (Nat.le_refl _) (Nat.le_refl _) hs
  by_cases hd : c = dquote
  · have hreads := reads_state5Rest h (by rw [hd]; decide) hi hs hesc
    cases hx : state5Rest env c l with
    | ok l' =>
      rw [hx] at hmoves
      refine ⟨Nat.lt_of_le_of_ne hmoves.1.low fun ht => ?_, hmoves.1.sane⟩
      have hrank := hmoves.2 ht.symm
      simp [hs] at hrank
    | error stop =>
      rw [hx] at hreads
      cases stop with
      | fault f => trivial
      | ret R =>
        cases hreads with
        | take x hr => exact Nat.lt_of_lt_of_eq (Nat.lt_succ_self _) hr.cursor.symm
        | defer x hr hfeed => exact absurd hfeed (not_deferred hs hesc hd _)
        | bad hr hfeed hcursor hc =>
          rw [hd] at hc
          cases hc
  · obtain ⟨hv, -⟩ := hi.good.buffer.cursor (by simp [hs, accumulates])
    obtain ⟨v, a, k, hstore, -⟩ := store_ok h hi.good.buffer.room hv c
    rw [state5Rest, if_neg hd, hstore, ok_bind]
    exact ⟨Nat.lt_succ_self _, sane_of_tame (by simp [hs])⟩

/-- Once the cursor is behind the chunk, nothing is promised but what the NUL there leads to, and
that it stays behind. -/
lemma onwards_overrun {q : Outcome} {r : Reader} (hq : q = ([], .ok r)) (hpair : r.pair = true)
    (hlex : r.lex = .quoted) (htail : tail ≠ [nul]) {x : Exec Locals}
    (hx : Beyond chunk.length x) : Onwards env chunk tail q x := by
  match x, hx with
  | .ok l', hx => exact .inr ⟨r, hq, hpair, hlex, fun h => absurd h htail, hx⟩
  | .error (.ret R), hx =>
    refine .overrun _ r hq hpair hlex (fun h => absurd h htail) ?_
    rintro R' hR
    cases hR
    exact hx
  | .error (.fault f), _ =>
    exact .overrun _ r hq hpair hlex (fun h => absurd h htail) fun R hR => by cases hR

lemma onwards_behind {q : Outcome} {r : Reader} (hb : Holding env chunk tail)
    (hq : q = ([], .ok r)) (hpair : r.pair = true) (hlex : r.lex = .quoted)
    (hl : tail = [nul] → l.t = chunk.length + 1 ∧ l.state = .s5) (hbehind : chunk.length < l.t)
    (hsane : Sane l.toRegs) : Onwards env chunk tail q (cparseHead env l) := by
  by_cases htail : tail = [nul]
  · obtain ⟨ht, hs⟩ := hl htail
    have hnone : env.buf[l.t]? = none := by
      rw [hb.buf, htail, ht]
      simp
    rw [cparseHead, if_neg (by simp [hs]), Env.read, hnone]
    exact .overrun _ r hq hpair hlex (fun _ => rfl) fun R hR => by cases hR
  · exact onwards_overrun hq hpair hlex htail (beyond_head hbehind hsane)

/-- At the end of the chunk the call returns and waits for more. -/
lemma onwards_finish {q : Outcome} (hb : Holding env chunk tail) (hi : GoodHead l L)
    (h3 : l.state ≠ .s3) (ht : l.t = chunk.length) (hq : q = scan (view l.toRegs L) (chunk.drop l.t)) :
    Onwards env chunk tail q (cparseHead env l) := by
  obtain ⟨c, hc, -⟩ := hb.get_end
  have hopen : ¬ (l.depth = 0 ∧ 0 < l.elts) := by
    rintro ⟨hd, he⟩
    have hL : L = [] := List.eq_nil_of_length_eq_zero (hi.good.depth.symm.trans hd)
    have hfresh := hi.fresh hL
    omega
  have hend : c = nul ∨ chunk.length = env.len := by
    rcases hb.stop with hlen | hnul
    · exact .inr hlen.symm
    · exact .inl (Option.some.inj (hc.symm.trans hnul))
  rw [cparseHead, if_neg hi.good.textual.2.2.2, Env.read, ht, hc, ok_bind, if_pos hend, finish,
    if_neg hopen, ht, hc]
  refine .more _ L hi.good ?_ rfl rfl rfl ?_ rfl h3
  · rw [hq, ht, List.drop_length, scan_nil]
  · exact if_pos hend

lemma onwards_pair {q : Outcome} (hb : Holding env chunk tail) (hi : GoodHead l L)
    (ht : l.t < chunk.length) (hs : l.state = .s5)
    (hp : (l.esc && isEscapable (chunk.get ⟨l.t, ht⟩)) = true)
    (hq : q = scan (view l.toRegs L) (chunk.drop l.t)) :
    Onwards env chunk tail q (state5 env (chunk.get ⟨l.t, ht⟩) l) := by
  have hne := hb.ne_nul ht
  rw [Holding.drop_cons ht, scan_cons] at hq
  rw [state5, if_pos hp]
  rcases escaped_pair hne hi hs hp with ⟨hrun, hfeed⟩ | ⟨l₁, hrun, hi₁, ht₁, hs₁, he₁, hfeed⟩
  · rw [hrun]
    refine .stray ?_
    rw [hq, hfeed, scanOn_error]
  · rw [hfeed, scanOn_silent] at hq
    have hlex : (view l₁.toRegs L).lex = .quoted := by
      rw [view, hs₁]
      rfl
    rw [hrun, ok_bind, Env.read]
    by_cases hlast : l.t + 1 = chunk.length
    · rw [hlast, List.drop_length, scan_nil] at hq
      obtain ⟨c, hc, hnul⟩ := hb.get_end
      rw [ht₁, hlast, hc]
      by_cases htail : tail = [nul]
      · obtain ⟨hv, -⟩ := hi₁.good.buffer.cursor (by simp [hs₁, accumulates])
        obtain ⟨v, a, k, hg, -⟩ := store_ok hb.alloc hi₁.good.buffer.room hv nul
        rw [hnul htail, ok_bind, state5Rest, if_neg (by decide), hg]
        exact .inr ⟨_, hq, rfl, hlex, fun _ => ⟨by simp [ht₁, hlast], hs₁⟩, by simp [ht₁, hlast],
          sane_of_tame (by simp [hs₁])⟩
      · rw [ok_bind]
        refine onwards_overrun hq rfl hlex htail ?_
        rw [← hlast, ← ht₁]
        exact beyond_state5Rest hb.alloc hi₁ hs₁ (by simp [he₁])
    · have hlt : l₁.t < chunk.length := by omega
      rw [hb.get_lt hlt, ok_bind]
      have hreads := reads_state5Rest hb.alloc (hb.ne_nul hlt) hi₁ hs₁ (by simp [he₁])
      refine Reads.onwards hb hlt rfl hreads ?_
      -- the reader forgets with the next byte that there was a pair
      rw [hq, ← ht₁, Holding.drop_cons hlt, scan_cons, scan_cons]
      rfl

lemma onwards_head {q : Outcome} (hb : Holding env chunk tail)
    (ha : Ahead env chunk tail q l) : Onwards env chunk tail q (cparseHead env l) := by
  rcases ha with ⟨L, hi, hle, h3, hq⟩ | ⟨r, hq, hpair, hlex, hl, hbehind, hsane⟩
  · by_cases hend : l.t = chunk.length
    · exact onwards_finish hb hi (fun hs => absurd (h3 hs).1 (by omega)) hend hq
    · have ht : l.t < chunk.length := Nat.lt_of_le_of_ne hle hend
      have hne := hb.ne_nul ht
      have hget := hb.get_lt ht
      have hgo : ¬ (chunk.get ⟨l.t, ht⟩ = nul ∨ l.t = env.len) := by
        rintro (h | h)
        · exact hne h
        · have hlen := hb.len
          omega
      rw [cparseHead, if_neg hi.good.textual.2.2.2, Env.read, hget, ok_bind, if_neg hgo]
      by_cases hpair : l.state = .s5 ∧ (l.esc && isEscapable (chunk.get ⟨l.t, ht⟩)) = true
      · rw [switch, hpair.1]
        exact onwards_pair hb hi ht hpair.1 hpair.2 hq
      · have h5 : l.state = .s5 → (l.esc && isEscapable (chunk.get ⟨l.t, ht⟩)) = false := by
          intro hs
          rw [← Bool.not_eq_true]
          exact fun h => hpair ⟨hs, h⟩
        refine Reads.onwards hb ht rfl (reads_switch hb.alloc hne hi ?_ h5) hq
        intro hs3
        have hparen := (h3 hs3).2
        rw [hget] at hparen
        exact Option.some.inj hparen
  · exact onwards_behind hb hq hpair hlex hl hbehind hsane

end Chunk

lemma Good.sane {l : Regs} {L : List (List Sexp)} (hi : Good l L) : Sane l := by
  refine ⟨?_, fun hs => absurd hs hi.textual.2.2.2⟩
  intro hs
  have ht := hi.buffer.token
  simp [TokenInv, hs] at ht

/-- The loop of a call on a continuation with the open lists `L` ends at a head where the reader is
still ahead. -/
lemma run_ends_ahead {k : Call} {cc : Pcont} {chunk tail : List Byte} {L : List (List Sexp)}
    (n : Nat) (hb : Holding k.env chunk tail) (hi : Good cc.toRegs L) (h3 : cc.state ≠ .s3)
    (hpos : cc.lastPos.getD 0 ≤ chunk.length) :
    ∃ l s, Loop.run (cparseHead k.env) (fuel k.env) (cc.enter n) = some s ∧
      Ahead k.env chunk tail (scan (view cc.toRegs L) (chunk.drop (cc.lastPos.getD 0))) l ∧
      cparseHead k.env l = .error s := by
  have hhead : k.head cc = cparseHead k.env := by rw [Call.head, if_neg (by simp [hi.mode])]
  have hsane : Sane (cc.enter n).toRegs := hi.sane
  obtain ⟨s, hrun⟩ := @run_ends k cc (cc.enter n) hsane
  rw [hhead] at hrun
  generalize hq : scan (view cc.toRegs L) (chunk.drop (cc.lastPos.getD 0)) = q
  have hstart : Ahead k.env chunk tail q (cc.enter n) :=
    .inl ⟨L, ⟨hi, fun _ => rfl⟩, hpos, fun h => absurd h h3, hq.symm⟩
  have hstep : ∀ l l' : Locals, Ahead k.env chunk tail q l → cparseHead k.env l = .ok l' →
      Ahead k.env chunk tail q l' := by
    intro l l' hl hnext
    have ho := onwards_head hb hl
    rwa [hnext] at ho
  obtain ⟨l, hreach, hexit⟩ := Loop.exit_of_halts ⟨_, hrun⟩
  exact ⟨l, s, hrun, Loop.invariant_of_step hstep hstart hreach, hexit⟩

/-- The loop of a call on a continuation with the open lists `L` reads what is left of the chunk. -/
lemma run_ends_reading {k : Call} {cc : Pcont} {chunk tail : List Byte} {L : List (List Sexp)}
    (n : Nat) (hb : Holding k.env chunk tail) (hi : Good cc.toRegs L) (h3 : cc.state ≠ .s3)
    (hpos : cc.lastPos.getD 0 ≤ chunk.length) :
    ∃ s, Loop.run (cparseHead k.env) (fuel k.env) (cc.enter n) = some s ∧
      Ends chunk tail (scan (view cc.toRegs L) (chunk.drop (cc.lastPos.getD 0))) s := by
  obtain ⟨l, s, hrun, hahead, hexit⟩ := run_ends_ahead n hb hi h3 hpos
  refine ⟨s, hrun, ?_⟩
  have ho := onwards_head hb hahead
  rw [hexit] at ho
  cases s with
  | ret R => exact ho
  | fault f => exact ho

/-- A call on a continuation with the open lists `L` reads what is left of the chunk. -/
theorem call_ends {k : Call} {cc : Pcont} {chunk tail : List Byte} {L : List (List Sexp)}
    (hb : Holding k.env chunk tail) (hi : Good cc.toRegs L) (h3 : cc.state ≠ .s3)
    (hpos : cc.lastPos.getD 0 ≤ chunk.length) :
    ∃ s, cparseSexp k.setup (some k.buf) k.len (some cc) k.errno = Result.ofStop (some s) ∧
      Ends chunk tail (scan (view cc.toRegs L) (chunk.drop (cc.lastPos.getD 0))) s := by
  obtain ⟨s, hrun, hends⟩ := run_ends_reading 0 hb hi h3 hpos
  refine ⟨s, ?_, hends⟩
  rw [cparseSexp_eq_run, Call.head, if_neg (by simp [hi.mode]), hrun]

end Sfsexp.Proofs
