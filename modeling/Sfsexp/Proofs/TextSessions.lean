import Sfsexp.Proofs.NormalMode
import Sfsexp.Proofs.Simulation

/-!
# Sessions on text

In mode `PARSER_NORMAL`, on bytes other than NUL and with memory for everything, every continuation
denotes a state of the reader, also after calls that reported an error.
-/

namespace Sfsexp.Proofs

open Sfsexp Spec

/-- The byte behind an escape pair inside double quotes is not the NUL that ends the string. -/
def PairInside (env : Env) (l : Locals) : Prop :=
  l.state = .s5 → ∀ c, env.buf[l.t]? = some c → (l.esc && isEscapable c) = true →
    env.buf[l.t + 1]? ≠ some nul

/-- A round in mode `PARSER_NORMAL` that stays inside the text. -/
structure TextRound (env : Env) (l : Locals) : Prop where
  alloc : env.Succeeds
  mode : l.mode = .normal
  pair : PairInside env l

/-- In state 3 the parser stands at the closing paren that brought it there. -/
def BeforeClose (env : Env) (l : Locals) : Prop :=
  l.state = .s3 → env.buf[l.t]? = some rparen ∧ l.t ≠ env.len

/-- A round that keeps what the locals denote. -/
abbrev KeepsGood (env : Env) : Exec Locals → Prop :=
  Post (fun l => (∃ L, GoodHead l L) ∧ BeforeClose env l)
    (fun r => (∃ L, Good r.cc.toRegs L) ∧ r.cc.state ≠ .s3) fun _ => True

section Round

variable {env : Env} {l l₁ : Locals} {c : Byte} {L : List (List Sexp)}

lemma keepsGood_of_reads {r : Reader} {x : Exec Locals} (hbuf : env.buf[l₁.t]? = some c)
    (hlen : c = rparen → l₁.t ≠ env.len) (hx : Reads c l₁ r x) : KeepsGood env x := by
  match x, hx with
  | .ok l', ⟨L', hgood, hfollows⟩ =>
    refine ⟨⟨L', hgood⟩, fun hs => ?_⟩
    cases hfollows with
    | defer ht hfeed h3 =>
      rw [ht, hbuf, h3 hs]
      exact ⟨rfl, hlen (h3 hs)⟩
    | take ht hfeed h3 => exact absurd hs h3
  | .error (.ret R), hyields =>
    obtain ⟨hgood, hstate, -⟩ : Idle R.cc := by
      cases hyields with
      | take x hr _ => exact hr.idle
      | defer x hr _ => exact hr.idle
      | bad hr _ => exact hr.idle
    exact ⟨⟨[], hgood⟩, by simp [hstate]⟩
  | .error (.fault _), _ => trivial

/-- The escaped byte and the one behind it. -/
lemma keepsGood_pair (h : TextRound env l) (hi : GoodHead l L) (hs : l.state = .s5)
    (hbuf : env.buf[l.t]? = some c) (hc : c ≠ nul) (hp : (l.esc && isEscapable c) = true) :
    KeepsGood env (switch env c l) := by
  have hswitch : switch env c l = state5 env c l := by rw [switch, hs]
  rw [hswitch, state5, if_pos hp]
  rcases escaped_pair hc hi hs hp with ⟨hrun, -⟩ | ⟨l₁, hrun, hi₁, ht, hs₁, hesc, -⟩
  · rw [hrun]
    trivial
  · rw [hrun, ok_bind, Env.read, ht]
    have hnext := h.pair hs c hbuf hp
    cases hc' : env.buf[l.t + 1]? with
    | none => trivial
    | some c' =>
      rw [hc'] at hnext
      rw [← ht] at hc'
      have hne : c' ≠ nul := fun hnul => hnext (congrArg some hnul)
      have hreads := reads_state5Rest h.alloc hne hi₁ hs₁ (by simp [hesc])
      by_cases hparen : c' = rparen
      · -- the paren belongs to the string, wherever the call ends
        obtain ⟨hv, -⟩ := hi₁.good.buffer.cursor (by simp [hs₁, accumulates])
        obtain ⟨v, a, k, hstore, -⟩ := store_ok h.alloc hi₁.good.buffer.room hv c'
        have hquote : c' ≠ dquote := by
          rw [hparen]
          decide
        rw [state5Rest, if_neg hquote, hstore, ok_bind] at hreads
        rw [ok_bind, state5Rest, if_neg hquote, hstore]
        obtain ⟨L', hgood, -⟩ := hreads
        exact ⟨⟨L', hgood⟩, fun hs₃ => by cases hs₁.symm.trans hs₃⟩
      · exact keepsGood_of_reads hc' (fun heq => absurd heq hparen) hreads

lemma keepsGood_finish (hi : GoodHead l L) (h3 : l.state ≠ .s3) :
    KeepsGood env (.error (finish env l)) := by
  have hopen : ¬ (l.depth = 0 ∧ 0 < l.elts) := by
    rintro ⟨hd, he⟩
    have hL : L = [] := List.eq_nil_of_length_eq_zero (hi.good.depth.symm.trans hd)
    have hfresh := hi.fresh hL
    omega
  rw [finish, if_neg hopen]
  split
  · trivial
  · exact ⟨⟨L, hi.good⟩, h3⟩

/-- One round on text. -/
lemma keepsGood_cparseHead (h : TextRound env l) (hi : GoodHead l L) (h3 : BeforeClose env l) :
    KeepsGood env (cparseHead env l) := by
  rw [cparseHead, if_neg hi.good.textual.2.2.2, Env.read]
  cases hbuf : env.buf[l.t]? with
  | none => trivial
  | some c =>
    rw [ok_bind]
    split_ifs with hstop
    · refine keepsGood_finish hi fun hs => ?_
      obtain ⟨hparen, hlen⟩ := h3 hs
      rw [hbuf, Option.some.injEq] at hparen
      rcases hstop with hnul | hend
      · rw [hparen] at hnul
        exact absurd hnul (by decide)
      · exact hlen hend
    · rw [not_or] at hstop
      by_cases hp : l.state = .s5 ∧ (l.esc && isEscapable c) = true
      · exact keepsGood_pair h hi hp.1 hbuf hstop.1 hp.2
      · refine keepsGood_of_reads hbuf (fun _ => hstop.2) (reads_switch h.alloc hstop.1 hi ?_ ?_)
        · intro hs
          exact Option.some.inj (hbuf.symm.trans (h3 hs).1)
        · intro hs5
          by_contra hpair
          exact hp ⟨hs5, by simpa using hpair⟩

end Round

section Sessions

variable {C : Env → Locals → Prop} {cc : Pcont} {k : Call} {allocs : Nat} {l : Locals}

/-- The locals of a continuation denote a state of the reader, in whichever mode it is. -/
def Denotes (cc : Pcont) : Prop := ∃ L, Good { cc.toRegs with mode := .normal } L

lemma Denotes.good (h : Denotes cc) (hm : cc.mode = .normal) : ∃ L, Good cc.toRegs L := by
  obtain ⟨L, hi⟩ := h
  rw [← hm] at hi
  exact ⟨L, hi⟩

/-- The handlers do not count. -/
lemma Good.configure {r : Regs} {L : List (List Sexp)} (h : Good r L)
    (handlers : Option Handlers) :
    Good { r with mode := .normal, eventHandlers := handlers } L :=
  ⟨⟨h.buffer.room.same ⟨rfl, rfl, rfl⟩, h.buffer.token⟩, rfl, h.noNul, h.plain, h.unquoted, h.stack,
    h.depth, h.textual, h.sealed⟩

lemma denotes_of_good {L : List (List Sexp)} (h : Good cc.toRegs L) : Denotes cc :=
  ⟨L, h.configure cc.eventHandlers⟩

/-- A call whose rounds are all in mode `PARSER_NORMAL` runs the loop of the tree-building parser. -/
lemma head_of_normalRounds (hC : ∀ env l, C env l → l.mode = .normal)
    (hrun : Loop.ReachesWhile (k.head cc) (C k.env) (cc.enter allocs) l)
    (hlast : l.mode = .normal) : cc.mode = .normal ∧ k.head cc = cparseHead k.env := by
  have hmode : cc.mode = .normal := by
    rcases Relation.ReflTransGen.cases_head hrun with rfl | ⟨_, ⟨hfirst, -⟩, -⟩
    · exact hlast
    · exact hC _ _ hfirst
  exact ⟨hmode, by rw [Call.head, if_neg (by simp [hmode])]⟩

lemma head_of_textRounds (hC : ∀ env l, C env l → TextRound env l)
    (hrun : Loop.ReachesWhile (k.head cc) (C k.env) (cc.enter allocs) l)
    (hlast : TextRound k.env l) : cc.mode = .normal ∧ k.head cc = cparseHead k.env :=
  head_of_normalRounds (fun env l h => (hC env l h).mode) hrun hlast.mode

lemma good_enter {L : List (List Sexp)} (hi : Good cc.toRegs L) (allocs : Nat) :
    GoodHead (cc.enter allocs) L := ⟨hi, fun _ => rfl⟩

lemma good_of_reaches (hC : ∀ env l, C env l → TextRound env l) {l₀ : Locals}
    {L : List (List Sexp)} (hi : GoodHead l₀ L) (h3 : BeforeClose k.env l₀)
    (hrun : Loop.ReachesWhile (cparseHead k.env) (C k.env) l₀ l) :
    (∃ L, GoodHead l L) ∧ BeforeClose k.env l := by
  induction hrun with
  | refl => exact ⟨⟨L, hi⟩, h3⟩
  | @tail l₁ l₂ _ hstep ih =>
    obtain ⟨⟨L', hi'⟩, h3'⟩ := ih
    have hkeeps := keepsGood_cparseHead (hC _ _ hstep.1) hi' h3'
    rwa [hstep.2] at hkeeps

/-- Every continuation of a session denotes a state of the reader, and does not stand before a closing
paren, when the calls keep that. -/
lemma denotes_of_calls
    (hcall : ∀ {cc : Pcont} {k : Call} {allocs : Nat} {l : Locals} {r : Return}, Denotes cc →
      cc.state ≠ .s3 → Loop.ReachesWhile (k.head cc) (C k.env) (cc.enter allocs) l → C k.env l →
      k.head cc l = .error (.ret r) → Denotes r.cc ∧ r.cc.state ≠ .s3)
    (h : Session C cc) : Denotes cc ∧ cc.state ≠ .s3 := by
  induction h with
  | start h =>
    rw [(initContinuation_eq_new h).1]
    refine ⟨⟨[], ⟨⟨Setup.length_fresh _ _, BufferParams.start_pos _⟩, rfl⟩, rfl, by simp [Pcont.new],
      .inr (.inr rfl), .inr (.inr rfl), stackOk_makeStack, rfl, by simp [Pcont.new],
      sealedLevels_nil⟩, ?_⟩
    simp [Pcont.new]
  | configure _ mode handlers ih =>
    obtain ⟨⟨L, hi⟩, h3⟩ := ih
    exact ⟨⟨L, hi.configure handlers⟩, h3⟩
  | call _ hrun hlast hret ih => exact hcall ih.1 ih.2 hrun hlast hret

/-- A call on text. -/
lemma denotes_of_text {r : Return} (hC : ∀ env l, C env l → TextRound env l) (hdenotes : Denotes cc)
    (h3 : cc.state ≠ .s3) (hrun : Loop.ReachesWhile (k.head cc) (C k.env) (cc.enter allocs) l)
    (hlast : TextRound k.env l) (hret : k.head cc l = .error (.ret r)) :
    Denotes r.cc ∧ r.cc.state ≠ .s3 := by
  obtain ⟨hmode, hhead⟩ := head_of_textRounds hC hrun hlast
  rw [hhead] at hrun hret
  obtain ⟨L, hi⟩ := hdenotes.good hmode
  obtain ⟨⟨L', hi'⟩, h3'⟩ :=
    good_of_reaches hC (good_enter hi allocs) (fun hs => absurd hs h3) hrun
  have hkeeps := keepsGood_cparseHead hlast hi' h3'
  rw [hret] at hkeeps
  obtain ⟨⟨L'', hi''⟩, h3''⟩ := hkeeps
  exact ⟨denotes_of_good hi'', h3''⟩

/-- Every continuation of a session on text denotes a state of the reader, and does not stand before a
closing paren. -/
lemma reader_of_session (hC : ∀ env l, C env l → TextRound env l) (h : Session C cc) :
    Denotes cc ∧ cc.state ≠ .s3 :=
  denotes_of_calls (fun hd h3 hrun hlast hret => denotes_of_text hC hd h3 hrun (hC _ _ hlast) hret) h

/-- And so do the locals at every loop head of a further call. -/
lemma good_of_call (hC : ∀ env l, C env l → TextRound env l) (hcc : Session C cc)
    (hrun : Loop.ReachesWhile (k.head cc) (C k.env) (cc.enter allocs) l)
    (hlast : TextRound k.env l) : k.head cc = cparseHead k.env ∧ ∃ L, GoodHead l L := by
  have hhead := head_of_textRounds hC hrun hlast
  obtain ⟨hdenotes, h3⟩ := reader_of_session hC hcc
  obtain ⟨L, hi⟩ := hdenotes.good hhead.1
  rw [hhead.2] at hrun
  exact ⟨hhead.2, (good_of_reaches hC (good_enter hi allocs) (fun hs => absurd hs h3) hrun).1⟩

end Sessions

end Sfsexp.Proofs
