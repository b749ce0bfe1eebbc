import Sfsexp.Proofs.Content
import Sfsexp.Proofs.TextSessions

/-!
# The length of a text atom counts its terminator

In `val_used` every atom of the parser counts the NUL, whichever syntax it was read from, but for a
quoted list: the code that ends one writes the NUL without counting it.
-/

namespace Sfsexp.Proofs

open Sfsexp Spec

/-- The length that the atom carries counts the text and its NUL. -/
def CountsNul : Sexp → Prop
  | .value _ val valAllocated valUsed => valUsed = (cstr val).length + 1 ∧ valUsed ≤ valAllocated
  | _ => True

instance : (x : Sexp) → Decidable (CountsNul x)
  | .value _ val valAllocated valUsed =>
    inferInstanceAs (Decidable (valUsed = (cstr val).length + 1 ∧ valUsed ≤ valAllocated))
  | .blob _ _ => .isTrue trivial
  | .list _ => .isTrue trivial

/-- The length that a callback is told counts the text and its NUL, which the bytes hold. -/
def CountsNulEvent : Event → Prop
  | .characters data len _ => len = (cstr data).length + 1 ∧ len ≤ data.length
  | _ => True

/-- The next byte is the paren that closes a quoted list. -/
def ClosesQuotedList (env : Env) (l : Locals) : Prop :=
  l.state = .s8 ∧ l.esc = false ∧ l.qdepth = 1 ∧ env.buf[l.t]? = some rparen ∧ l.t ≠ env.len

/-- A round on text that does not end a quoted list. -/
def CountingRound (env : Env) (l : Locals) : Prop := TextRound env l ∧ ¬ ClosesQuotedList env l

section Atoms

variable {env : Env} {l : Locals} {c : Byte} {L : List (List Sexp)}

/-- The atom whose NUL was counted. -/
lemma countsNul_terminated (aty : AtomT) (hr : Room l.toRegs) (hv : l.vcur = l.valUsed)
    (hn : nul ∉ l.val.take l.valUsed) : CountsNul (atomOf aty (terminated l)) ∧
      ∀ e ∈ preorder (atomOf aty (terminated l)), CountsNulEvent e := by
  have hfree := hr.free
  have hlt : l.valUsed < l.val.length := by
    rw [hr.cells]
    exact hfree
  have hlen : (cstr (l.val.set l.vcur nul)).length = l.valUsed := by
    rw [cstr_terminated hr hv hn, List.length_take]
    omega
  refine ⟨⟨?_, hfree⟩, ?_⟩
  · exact congrArg (· + 1) hlen.symm
  · intro e he
    have htext : (l.val.set l.vcur nul).take (l.valUsed + 1) = l.val.take l.valUsed ++ [nul] := by
      rw [hv, Cells.take_succ_set hlt]
    have hcstr : cstr (l.val.take l.valUsed ++ [nul]) = l.val.take l.valUsed := by
      have hstop := cstr_append_nul (l.val.take l.valUsed) []
      rwa [cstr_of_noNul hn] at hstop
    rw [atomOf, preorder, List.mem_singleton] at he
    rw [he, CountsNulEvent]
    change l.valUsed + 1 = (cstr ((l.val.set l.vcur nul).take (l.valUsed + 1))).length + 1 ∧
      l.valUsed + 1 ≤ ((l.val.set l.vcur nul).take (l.valUsed + 1)).length
    rw [htext, hcstr, List.length_append, List.length_take, List.length_singleton]
    omega

/-- Every atom that a round builds counts its NUL, if the round does not end a quoted list. -/
lemma countsNul_of_builds (h : TextRound env l) (hi : GoodHead l L)
    (hclose : ¬ ClosesQuotedList env l) (hc : ByteAt env l c) :
    BuildsOnly CountsNul CountsNulEvent env c l := by
  have hr := hi.good.buffer.room
  obtain ⟨hbuf, hne, hlen⟩ := hc hi.good.textual.2.2.2
  intro x hx
  cases hx with
  | bare hs _ =>
    obtain ⟨hv, -⟩ := hi.good.buffer.cursor (by simp [hs, accumulates])
    exact countsNul_terminated _ hr hv hi.good.noNul
  | @quoted l₁ l₂ hs hpair hquote _ =>
    have hstart : ∃ L, GoodHead l₁ L ∧ l₁.state = .s5 := by
      rcases hpair with rfl | ⟨hp, hback⟩
      · exact ⟨L, hi, hs⟩
      · rcases escaped_pair hne hi hs hp with ⟨hrun, -⟩ | ⟨l', hrun, hi', -, hs', -⟩
        · rw [hrun] at hback
          cases hback
        · rw [hrun] at hback
          cases hback
          exact ⟨L, hi', hs'⟩
    obtain ⟨L', hi₁, hs₁⟩ := hstart
    obtain ⟨hv₁, -⟩ := hi₁.good.buffer.cursor (by simp [hs₁, accumulates])
    obtain ⟨v, a, u, n, hrun, hcells, hfree, htext⟩ := @closingQuote_ok env
      { l₁ with state := .s6 } h.alloc (hi₁.good.buffer.room.same ⟨rfl, rfl, rfl⟩) hv₁
    rw [hrun] at hquote
    cases hquote
    exact countsNul_terminated _ ⟨hcells, hfree⟩ rfl (noNul_closingQuote hi₁.good.noNul htext)
  | @list l₁ hs hesc hparen hstore hq _ =>
    obtain ⟨hv, -⟩ := hi.good.buffer.cursor (by simp [hs, accumulates])
    obtain ⟨v, a, n, hrun, -⟩ := @storeEsc_ok env h.alloc
      { l with qdepth := l.qdepth - 1, state := .s9 } (hr.same ⟨rfl, rfl, rfl⟩) hv c
    rw [hrun] at hstore
    cases hstore
    have hdepth : l.qdepth = 1 := by
      have hzero : l.qdepth - 1 = 0 := hq
      omega
    exact absurd ⟨hs, hesc, hdepth, hparen ▸ hbuf, hlen⟩ hclose
  | listEnd hs _ _ =>
    have htoken := hi.good.buffer.token
    rw [TokenInv, hs] at htoken
    exact htoken.elim
  | blob hs _ _ => exact absurd hs hi.good.textual.2.2.2

/-- The atom in a terminated buffer whose NUL was not counted. -/
lemma not_countsNul_terminatedList (aty : AtomT) (hr : Room l.toRegs) (hv : l.vcur = l.valUsed)
    (hn : nul ∉ l.val.take l.valUsed) : ¬ CountsNul (atomOf aty (terminatedList l)) := by
  have hfree := hr.free
  have hlen : (cstr (l.val.set l.vcur nul)).length = l.valUsed := by
    rw [cstr_terminated hr hv hn, List.length_take, hr.cells]
    omega
  rintro ⟨hused, -⟩
  change l.valUsed = (cstr (l.val.set l.vcur nul)).length + 1 at hused
  omega

/-- The round that ends a quoted list leaves an atom that does not count its NUL. -/
lemma closesQuotedList_stocks (h : TextRound env l) (hi : GoodHead l L)
    (hclose : ClosesQuotedList env l) :
    ¬ Stocks CountsNul CountsNulEvent (cparseHead env l) := by
  obtain ⟨hs, hesc, hdepth, hbuf, hlen⟩ := hclose
  obtain ⟨hv, -⟩ := hi.good.buffer.cursor (by simp [hs, accumulates])
  have hcount : countParen rparen l = { l with qdepth := 0, state := .s9 } := by
    have hne : rparen ≠ lparen := by decide
    simp [countParen, hesc, hdepth, hne]
  obtain ⟨l₁, hstore, htext, hstate, hq⟩ := @storeEsc_listText env l rparen L h.alloc
    { l with qdepth := 0, state := .s9 } hi.good.buffer.room hv ⟨rfl, rfl, rfl⟩ rfl rfl
    ⟨rfl, rfl, rfl, rfl, rfl⟩
  have hrun : cparseHead env l = endQuotedList env { l₁ with t := l₁.t + 1, state := .s1 } := by
    have hstop : ¬ (rparen = nul ∨ l.t = env.len) := not_or.mpr ⟨by decide, hlen⟩
    rw [cparseHead, if_neg (by simp [hs]), Env.read, hbuf, ok_bind, if_neg hstop, switch, hs]
    dsimp only
    rw [state8, hcount, hstore, ok_bind]
    dsimp only
    rw [if_pos hstate, state9, if_pos hq]
  have hr : Room { l₁ with t := l₁.t + 1, state := .s1 }.toRegs := htext.room.same ⟨rfl, rfl, rfl⟩
  have hv₁ : l₁.vcur = l₁.valUsed := htext.cursor
  have hn : nul ∉ l₁.val.take l₁.valUsed := noNul_append hi.good.noNul (by decide) htext.text
  have hlt : l₁.vcur < l₁.val.length := lt_length_of_room htext.room (Nat.le_of_eq hv₁)
  have hatom := @not_countsNul_terminatedList { l₁ with t := l₁.t + 1, state := .s1 } .squote hr hv₁
    hn
  have hstack : l₁.stack = l.stack := htext.same.2.1
  rw [hrun]
  cases L with
  | nil =>
    rw [endQuotedList_top h.alloc (by exact hlt) (by rw [hstack]; exact hi.good.stack)]
    intro hstocked
    exact hatom (leavesAll_singleton.mp hstocked.sx)
  | cons T Ls =>
    obtain ⟨s, hopen, hok⟩ := @endQuotedList_open env { l₁ with t := l₁.t + 1, state := .s1 } T Ls
      h.alloc hlt (by rw [hstack]; exact hi.good.stack)
    rw [hopen]
    intro hstocked
    exact hatom (leavesAll_singleton.mp hstocked.sx)

end Atoms

section Sessions

variable {cc : Pcont} {k : Call} {allocs : Nat} {l : Locals}

lemma countingRound_stocks {env : Env} {L : List (List Sexp)} (h : CountingRound env l)
    (hi : GoodHead l L) (hl : StockedHead CountsNul CountsNulEvent l) :
    Stocks CountsNul CountsNulEvent (cparseHead env l) := by
  apply stocks_cparseHead trivial trivial hl
  intro c hc
  exact countsNul_of_builds h.1 hi h.2 hc

lemma countsNul_of_reaches {l₀ : Locals} {L : List (List Sexp)} (hi : GoodHead l₀ L)
    (h3 : BeforeClose k.env l₀) (hl : StockedHead CountsNul CountsNulEvent l₀)
    (hrun : Loop.ReachesWhile (cparseHead k.env) (CountingRound k.env) l₀ l) :
    StockedHead CountsNul CountsNulEvent l := by
  induction hrun with
  | refl => exact hl
  | @tail l₁ l₂ hreach hstep ih =>
    obtain ⟨⟨L', hi'⟩, -⟩ := good_of_reaches (fun _ _ h => h.1) hi h3 hreach
    have hstock := countingRound_stocks hstep.1 hi' ih
    rwa [hstep.2] at hstock

/-- The stack between two calls and the last result. -/
lemma countsNul_of_session (h : Session CountingRound cc) :
    (∀ T ∈ cc.stack.levels, LeavesAll CountsNul T) ∧ LeavesAll CountsNul cc.lastSexp := by
  induction h with
  | start h =>
    rw [(initContinuation_eq_new h).1]
    refine ⟨?_, trivial⟩
    intro T hT
    cases hT
  | configure _ _ _ ih => exact ih
  | @call cc k allocs l r hcc hrun hlast hret ih =>
    have hC : ∀ env l, CountingRound env l → TextRound env l := fun _ _ h => h.1
    obtain ⟨hmode, hhead⟩ := head_of_textRounds hC hrun hlast.1
    obtain ⟨hdenotes, h3⟩ := reader_of_session hC hcc
    obtain ⟨L, hi⟩ := hdenotes.good hmode
    obtain ⟨-, L', hi'⟩ := good_of_call hC hcc hrun hlast.1
    rw [hhead] at hrun hret
    have hstart : StockedHead CountsNul CountsNulEvent (cc.enter allocs) :=
      ⟨ih.1, trivial, fun _ he => by cases he⟩
    have hreach := countsNul_of_reaches (good_enter hi allocs) (fun hs => absurd hs h3) hstart hrun
    have hstock := countingRound_stocks hlast hi' hreach
    rw [hret] at hstock
    exact ⟨hstock.levels, hstock.sx⟩

/-- While no quoted list was closed, every text atom on the stack, in a result or in a callback
counts its NUL, and so do those that the next round adds exactly when it does not close a quoted
list. The atoms of `new_sexp_atom` do when they are given the length of their text. -/
theorem used_length_uniform (hcc : Session CountingRound cc)
    (hrun : Loop.ReachesWhile (k.head cc) (CountingRound k.env) (cc.enter allocs) l)
    (hround : TextRound k.env l) :
    LeavesAll CountsNul cc.lastSexp ∧ StockedHead CountsNul CountsNulEvent l ∧
      (Stocks CountsNul CountsNulEvent (k.head cc l) ↔ ¬ ClosesQuotedList k.env l) ∧
      ∀ g buf aty h x h', newSexpAtom g buf (cstr buf).length aty h = .ok (some x, h') →
        CountsNul x := by
  have hC : ∀ env l, CountingRound env l → TextRound env l := fun _ _ h => h.1
  obtain ⟨hmode, hhead⟩ := head_of_textRounds hC hrun hround
  obtain ⟨hdenotes, h3⟩ := reader_of_session hC hcc
  obtain ⟨L, hi⟩ := hdenotes.good hmode
  obtain ⟨-, L', hi'⟩ := good_of_call hC hcc hrun hround
  obtain ⟨hlevels, hresult⟩ := countsNul_of_session hcc
  rw [hhead] at hrun ⊢
  have hstart : StockedHead CountsNul CountsNulEvent (cc.enter allocs) :=
    ⟨hlevels, trivial, fun _ he => by cases he⟩
  have hreach := countsNul_of_reaches (good_enter hi allocs) (fun hs => absurd hs h3) hstart hrun
  refine ⟨hresult, hreach, ⟨?_, ?_⟩, ?_⟩
  · intro hstock hclose
    exact closesQuotedList_stocks hround hi' hclose hstock
  · intro hclose
    exact countingRound_stocks ⟨hround, hclose⟩ hi' hreach
  · intro g buf aty h x h' hnew
    obtain ⟨val, rfl, -, htext, -⟩ := newSexpAtom_eq hnew
    rw [CountsNul, htext]
    exact ⟨rfl, le_refl _⟩

/-- The call on `x (a "b" 'c d)`. -/
def threeSyntaxes : Call :=
  .plain [120, space, lparen, 97, space, dquote, 98, dquote, space, tick, 99, space, 100, rparen]

/-- The client has got `x` and calls again. Behind `(a "b"` the round that ends `'c` adds a third atom
that counts its NUL. -/
theorem used_length_uniform_third :
    ∃ cc l, Session CountingRound cc ∧ cc.lastSexp.length = 1 ∧ LeavesAll CountsNul cc.lastSexp ∧
      l ∈ Loop.heads (threeSyntaxes.head cc) 14 (cc.enter 0) ∧ l.state = .s4 ∧
      threeSyntaxes.buf[l.t]? = some space ∧ l.stack.levels.map List.length = [2, 1] ∧
      StockedHead CountsNul CountsNulEvent l ∧
      Stocks CountsNul CountsNulEvent (threeSyntaxes.head cc l) ∧
      ∀ g buf aty h x h', newSexpAtom g buf (cstr buf).length aty h = .ok (some x, h') →
        CountsNul x := by
  have hcheck : ((cparseSexp .plain (some threeSyntaxes.buf) threeSyntaxes.len
      (some (Pcont.new .plain)) .ok).returnOf.bind fun r =>
        (Loop.heads (threeSyntaxes.head r.cc) 14 (r.cc.enter 0)).getLast?.map fun l =>
          decide ((r.cc.lastSexp.length = 1 ∧ l.state = .s4 ∧
              threeSyntaxes.buf[l.t]? = some space ∧ l.stack.levels.map List.length = [2, 1]) ∧
            (∀ m ∈ Loop.heads (threeSyntaxes.head (Pcont.new .plain)) (fuel threeSyntaxes.env)
              ((Pcont.new .plain).enter 0), m.mode = .normal ∧ m.esc = false ∧ m.state ≠ .s8) ∧
            ∀ m ∈ Loop.heads (threeSyntaxes.head r.cc) 14 (r.cc.enter 0),
              m.mode = .normal ∧ m.esc = false ∧ m.state ≠ .s8)) = some true := by
    decide +kernel
  obtain ⟨r, hret, hcheck⟩ := Option.bind_eq_some_iff.mp hcheck
  obtain ⟨l, hlast, hcheck⟩ := Option.map_eq_some_iff.mp hcheck
  obtain ⟨⟨hresult, hstate, hnext, hlevels⟩, hfirst, hsecond⟩ := of_decide_eq_true hcheck
  have hround : ∀ m : Locals, m.mode = .normal ∧ m.esc = false ∧ m.state ≠ .s8 →
      CountingRound threeSyntaxes.env m := by
    rintro m ⟨hmode, hesc, hs⟩
    refine ⟨⟨fun _ => rfl, hmode, fun _ c _ hp => ?_⟩, fun hclose => hs hclose.1⟩
    rw [hesc] at hp
    cases hp
  have hmem := List.mem_of_getLast? hlast
  have hcc : Session CountingRound r.cc :=
    .of_call (k := threeSyntaxes) (.start (initContinuation_of_succeeds fun _ => rfl)) hret
      fun m hm => hround m (hfirst m hm)
  have hrun := Loop.reachesWhile_of_mem_heads hmem fun m hm => hround m (hsecond m hm)
  have hlast := hround l (hsecond l hmem)
  obtain ⟨hresults, hstocked, hadds, hnew⟩ := used_length_uniform hcc hrun hlast.1
  exact ⟨r.cc, l, hcc, hresult, hresults, hmem, hstate, hnext, hlevels, hstocked, hadds.mpr hlast.2,
    hnew⟩

/-- The atom of `'(a)` holds three bytes of text, and three is what its length says. -/
theorem quoted_list_short :
    (cparseSexp .plain (some [tick, lparen, 97, rparen, nul]) 4 none .ok).returnOf.map
      (fun r => r.cc.lastSexp.map fun x => decide (CountsNul x)) = some [false] := by
  decide +kernel

end Sessions

end Sfsexp.Proofs
