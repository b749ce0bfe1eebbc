import Sfsexp.Proofs.QuotedRest
import Sfsexp.Spec.QuotedText

/-!
# The depth of a quoted list

The counter is at rest outside of quoted lists and counts the parentheses inside of them, from round
to round and from call to call, unless an escape flag of an earlier token swallows the first
parenthesis or a call that ends in a quoted list resets the state.
-/

namespace Sfsexp.Proofs

open Sfsexp Spec

/-- The counter and the escape flag are those of the quoted text. -/
structure Counts (l : Regs) (text : List Byte) (inString : Bool) : Prop where
  esc : (scanQuoted text).esc = l.esc
  inString : (scanQuoted text).inString = inString
  depth : opened text = l.qdepth

/-- The invariant of the counter. Before the first byte of a quoted list the counter is still 0, and
then `first` holds. -/
structure DepthInv (first : Prop) (l : Regs) (text : List Byte) : Prop where
  closing : l.state ≠ .s9
  rest : l.state ≠ .s8 → l.state ≠ .s10 → l.qdepth = 0
  list : l.state = .s8 → Counts l text false ∧ (1 ≤ l.qdepth ∨ text = [] ∧ first)
  string : l.state = .s10 → Counts l text true ∧ 1 ≤ l.qdepth

/-- The parenthesis that starts a quoted list is about to be read. -/
def ParenNext (env : Env) (l : Locals) : Prop := env.buf[l.t]? = some lparen ∧ l.t ≠ env.len

/-- The rounds that keep the invariant: no escape flag is set before the parenthesis that starts a
quoted list, and the loop is not left at depth 0 inside a quoted list after an element was
completed. -/
structure QuoteTidy (env : Env) (l : Locals) : Prop where
  succeeds : env.Succeeds
  escape : l.state = .s7 → ParenNext env l → l.esc = false
  exit : AtEnd env l → l.depth = 0 → 0 < l.elts → l.state ≠ .s8 ∧ l.state ≠ .s10

section Count

variable {l : Locals} {text : List Byte} {c : Byte} {first : Prop}

lemma AtRest.depthInv {l : Regs} (h : AtRest 0 l) : DepthInv first l text := by
  have hout := h.outside
  refine ⟨?_, fun _ _ => h.qdepth, ?_, ?_⟩
  all_goals
    intro hs
    rw [hs] at hout
    cases hout

lemma depthInv_list {l : Regs} (hs : l.state = .s8) (hc : Counts l text false)
    (hpos : 1 ≤ l.qdepth ∨ text = [] ∧ first) : DepthInv first l text := by
  refine ⟨?_, fun h _ => absurd hs h, fun _ => ⟨hc, hpos⟩, ?_⟩
  all_goals
    rw [hs]
    simp

lemma depthInv_string {l : Regs} (hs : l.state = .s10) (hc : Counts l text true)
    (hpos : 1 ≤ l.qdepth) : DepthInv first l text := by
  refine ⟨?_, fun _ h => absurd hs h, ?_, fun _ => ⟨hc, hpos⟩⟩
  all_goals
    rw [hs]
    simp

lemma scanQuoted_snoc : scanQuoted (text ++ [c]) = (scanQuoted text).read c := by
  simp [scanQuoted]

/-- The registers before a byte of a quoted list is stored, when the text ends in that byte. State 9
is the one that a closing parenthesis leads through. -/
structure CountedTo (m : Regs) (text : List Byte) : Prop where
  depth : opened text = m.qdepth
  state : m.state = .s8 ∧ 1 ≤ m.qdepth ∨ m.state = .s9 ∧ 0 ≤ m.qdepth ∨
    m.state = .s10 ∧ 1 ≤ m.qdepth
  inString : (scanQuoted text).inString = decide (m.state = .s10)

lemma counted_countParen (hs : l.state = .s8) (hc : Counts l.toRegs text false)
    (hfirst : 1 ≤ l.qdepth ∨ text = [] ∧ c = lparen) :
    CountedTo (countParen c l).toRegs (text ++ [c]) := by
  obtain ⟨hesc, hin, hdepth⟩ := hc
  have hpos : c ≠ lparen → 1 ≤ l.qdepth := fun h => hfirst.resolve_right fun h' => h h'.2
  have hnonneg : 0 ≤ l.qdepth := by
    rcases hfirst with h | ⟨rfl, -⟩
    · omega
    · have h0 : 0 = l.qdepth := hdepth
      omega
  rw [opened] at hdepth
  rw [countParen]
  by_cases he : l.esc = true
  · have hpos' : 1 ≤ l.qdepth := by
      refine hfirst.resolve_right fun h' => ?_
      rw [h'.1, he] at hesc
      exact absurd hesc (by decide)
    rw [if_pos he]
    refine ⟨?_, .inl ⟨hs, hpos'⟩, ?_⟩
    · simp [opened, scanQuoted_snoc, QuotedScan.read, hesc, he, hdepth]
    · simp [scanQuoted_snoc, QuotedScan.read, hesc, he, hin, hs]
  have he' : l.esc = false := by simpa using he
  rw [if_neg he]
  split_ifs with h1 h2 h3
  · refine ⟨?_, .inl ⟨hs, by dsimp only; omega⟩, ?_⟩
    · simp [opened, scanQuoted_snoc, QuotedScan.read, hesc, he', hin, hdepth, h1]
    · simp [scanQuoted_snoc, QuotedScan.read, hesc, he', hin, hs, h1, lparen, dquote]
  · have hq := hpos h1
    refine ⟨?_, .inr (.inl ⟨rfl, by dsimp only; omega⟩), ?_⟩
    · simp [opened, scanQuoted_snoc, QuotedScan.read, hesc, he', hin, hdepth, h2, lparen, rparen]
    · simp [scanQuoted_snoc, QuotedScan.read, hesc, he', hin, h2, rparen, dquote]
  · refine ⟨?_, .inr (.inr ⟨rfl, hpos h1⟩), ?_⟩
    · simp [opened, scanQuoted_snoc, QuotedScan.read, hesc, he', hin, hdepth, h1, h2]
    · simp [scanQuoted_snoc, QuotedScan.read, hesc, he', hin, h3]
  · refine ⟨?_, .inl ⟨hs, hpos h1⟩, ?_⟩
    · simp [opened, scanQuoted_snoc, QuotedScan.read, hesc, he', hin, hdepth, h1, h2]
    · simp [scanQuoted_snoc, QuotedScan.read, hesc, he', hin, hs, h3]

lemma counted_string (hs : l.state = .s10) (hc : Counts l.toRegs text true) (hq : 1 ≤ l.qdepth) :
    CountedTo (if c = dquote ∧ l.esc = false then { l with state := State.s8 } else l).toRegs
      (text ++ [c]) := by
  obtain ⟨hesc, hin, hdepth⟩ := hc
  rw [opened] at hdepth
  have hnext : opened (text ++ [c]) = l.qdepth := by
    simp [opened, scanQuoted_snoc, QuotedScan.read, hin, hdepth]
  split_ifs with hclose
  · refine ⟨hnext, .inl ⟨rfl, hq⟩, ?_⟩
    simp [scanQuoted_snoc, QuotedScan.read, hesc, hclose, hin]
  · refine ⟨hnext, .inr (.inr ⟨hs, hq⟩), ?_⟩
    simp [scanQuoted_snoc, QuotedScan.read, hesc, hclose, hin, hs]

/-- The byte was stored, and state 9 has not run yet. -/
lemma CountedTo.depthInv {m l' : Locals} {l'' : Regs} (h : CountedTo m.toRegs (text ++ [c]))
    (hsame : Uncounted m l') (hesc : l'.esc = (c == backslash)) (hq : l''.qdepth = l'.qdepth)
    (he : l''.esc = l'.esc)
    (hs : l''.state = l'.state ∧ l'.state ≠ .s9 ∨
      l''.state = .s8 ∧ l'.state = .s9 ∧ l'.qdepth ≠ 0) :
    DepthInv first l'' (text ++ [c]) := by
  obtain ⟨hdepth, hstate, hin⟩ := h
  have hcounts : ∀ inString, (scanQuoted (text ++ [c])).inString = inString →
      Counts l'' (text ++ [c]) inString := fun inString hin => by
    refine ⟨?_, hin, ?_⟩
    · rw [he, hesc, scanQuoted_snoc]
      rfl
    · rw [hq, hsame.qdepth, hdepth]
  rw [← hsame.state] at hin
  rw [← hsame.state, ← hsame.qdepth] at hstate
  rw [← hq] at hstate
  rcases hs with ⟨hs, h9⟩ | ⟨hs, h9, hne⟩
  · rcases hstate with ⟨h8, hpos⟩ | ⟨h9', -⟩ | ⟨h10, hpos⟩
    · refine depthInv_list (hs.trans h8) (hcounts _ ?_) (.inl hpos)
      simpa [h8] using hin
    · exact absurd h9' h9
    · refine depthInv_string (hs.trans h10) (hcounts _ ?_) hpos
      simpa [h10] using hin
  · have hpos : 1 ≤ l''.qdepth := by
      rw [← hq] at hne
      rcases hstate with ⟨-, h⟩ | ⟨-, h⟩ | ⟨-, h⟩ <;> omega
    refine depthInv_list hs (hcounts _ ?_) (.inl hpos)
    simpa [h9] using hin

end Count

/-- What a round makes of the invariant. The quoted text is `text` before and `text'` after it. -/
abbrev KeepsDepth (env : Env) (text text' : List Byte) : Exec Locals → Prop :=
  Post (fun l => DepthInv (ParenNext env l) l.toRegs text')
    (fun r => DepthInv False r.cc.toRegs text) fun _ => True

section Rounds

variable {env : Env} {l m : Locals} {text text' : List Byte} {c : Byte}

lemma Rests.keepsDepth {x : Exec Locals} (h : Rests 0 x) : KeepsDepth env text text' x :=
  Post.mono h (fun _ h => h.depthInv) fun _ h => h.depthInv

/-- A round of state 8, whose last part is state 9. -/
lemma keepsDepth_count {x : Exec Locals} {close : Locals → Exec Locals}
    (hm : CountedTo m.toRegs (text ++ [c]))
    (hx : Post (fun l' => Uncounted m l' ∧ l'.esc = (c == backslash)) (fun _ => False)
      (fun _ => True) x)
    (hclose : ∀ l, l.qdepth = 0 → l.state = .s1 → Rests 0 (close l)) :
    KeepsDepth env text (text ++ [c]) (x >>= fun l =>
      if l.state = .s9 then
        if l.qdepth = 0 then close { l with t := l.t + 1, state := .s1 }
        else .ok { l with t := l.t + 1, state := .s8 }
      else .ok { l with t := l.t + 1 }) := by
  refine (Post.mono hx (fun _ h => h) fun _ h => h.elim).bind ?_
  rintro l ⟨hsame, hesc⟩
  by_cases h9 : l.state = .s9
  · rw [if_pos h9]
    by_cases hq : l.qdepth = 0
    · rw [if_pos hq]
      exact Rests.keepsDepth (hclose _ hq rfl)
    · rw [if_neg hq]
      exact hm.depthInv hsame hesc rfl rfl (.inr ⟨rfl, h9, hq⟩)
  · rw [if_neg h9]
    exact hm.depthInv hsame hesc rfl rfl (.inl ⟨rfl, h9⟩)

/-- A round of state 10. -/
lemma keepsDepth_string {x : Exec Locals} (hm : CountedTo m.toRegs (text ++ [c]))
    (h9 : m.state ≠ .s9)
    (hx : Post (fun l' => Uncounted m l' ∧ l'.esc = (c == backslash)) (fun _ => False)
      (fun _ => True) x) :
    KeepsDepth env text (text ++ [c]) (x >>= fun l => .ok { l with t := l.t + 1 }) := by
  refine (Post.mono hx (fun _ h => h) fun _ h => h.elim).bind ?_
  rintro l ⟨hsame, hesc⟩
  exact hm.depthInv hsame hesc rfl rfl (.inl ⟨rfl, hsame.state ▸ h9⟩)

/-- The quoted list that an apostrophe starts. -/
lemma keepsDepth_start (hq : l.qdepth = 0) (hesc : l.esc = false) (hp : ParenNext env l) :
    KeepsDepth env text [] (.ok { l with vcur := 0, state := .s8 }) :=
  depthInv_list rfl ⟨hesc.symm, rfl, hq.symm⟩ (.inr ⟨rfl, hp⟩)

/-- A call that ends inside a quoted list keeps the registers. -/
lemma DepthInv.atEnd (h : DepthInv (ParenNext env l) l.toRegs text) (hend : AtEnd env l) :
    DepthInv False l.toRegs text := by
  have hp : ¬ ParenNext env l := by
    rintro ⟨hb, ht⟩
    rcases hend with ht' | ⟨-, hb'⟩
    · exact ht ht'
    · rw [hb] at hb'
      exact absurd hb' (by decide)
  refine ⟨h.closing, h.rest, fun hs => ?_, h.string⟩
  obtain ⟨hc, hpos⟩ := h.list hs
  exact ⟨hc, .inl (hpos.resolve_right fun h' => hp h'.2)⟩

lemma textAfter_quoted (hs : l.state = .s8 ∨ l.state = .s10) (hb : env.buf[l.t]? = some c) :
    textAfter env l text = text ++ [c] := by
  rw [textAfter, if_pos hs, hb]
  rfl

lemma textAfter_unquoted (h8 : l.state ≠ .s8) (h10 : l.state ≠ .s10) :
    textAfter env l text = [] := by
  rw [textAfter, if_neg (by simp [h8, h10])]

lemma DepthInv.counted_list {first : Prop} (hi : DepthInv first l.toRegs text) (hs : l.state = .s8)
    (hfirst : first → c = lparen) : CountedTo (countParen c l).toRegs (text ++ [c]) := by
  obtain ⟨hc, hpos⟩ := hi.list hs
  exact counted_countParen hs hc (hpos.imp_right fun h => ⟨h.1, hfirst h.2⟩)

lemma DepthInv.atRest {first : Prop} (hi : DepthInv first l.toRegs text) (h8 : l.state ≠ .s8)
    (h10 : l.state ≠ .s10) : AtRest 0 l.toRegs :=
  ⟨hi.rest h8 h10, by
    have h9 := hi.closing
    cases hs : l.state <;> simp_all [quotes]⟩

lemma ParenNext.byte (h : ParenNext env l) (hb : env.buf[l.t]? = some c) : c = lparen :=
  Option.some.inj (hb.symm.trans h.1)

lemma keepsDepth_state7 (hi : DepthInv (ParenNext env l) l.toRegs text) (hc : QuoteTidy env l)
    (hs : l.state = .s7) (hb : env.buf[l.t]? = some c) (ht : l.t ≠ env.len) :
    KeepsDepth env text [] (state7 env c l) := by
  have hq := hi.rest (by simp [hs]) (by simp [hs])
  rw [state7]
  split_ifs with h1 h2
  · refine Rests.keepsDepth ((passes_store hc.succeeds).rests fun l₁ h₁ => ?_)
    exact ⟨h₁.qdepth.trans hq, by simp [h₁.state, quotes]⟩
  · subst h2
    exact keepsDepth_start hq (hc.escape hs ⟨hb, ht⟩) ⟨hb, ht⟩
  · exact Rests.keepsDepth ⟨hq, rfl⟩

lemma keepsDepth_finish (hi : DepthInv (ParenNext env l) l.toRegs text) (hc : QuoteTidy env l)
    (hend : AtEnd env l) : KeepsDepth env text text' (.error (finish env l)) := by
  by_cases hs : l.state = .s8 ∨ l.state = .s10
  · have hstay : ¬ (l.depth = 0 ∧ 0 < l.elts) := fun h => by
      obtain ⟨h8, h10⟩ := hc.exit hend h.1 h.2
      rcases hs with hs | hs
      · exact h8 hs
      · exact h10 hs
    rw [finish, if_neg hstay]
    split
    · trivial
    · exact hi.atEnd hend
  · have h8 : l.state ≠ .s8 := fun h => hs (.inl h)
    have h10 : l.state ≠ .s10 := fun h => hs (.inr h)
    exact Rests.keepsDepth (rests_finish (hi.atRest h8 h10))

lemma keepsDepth_switch (hi : DepthInv (ParenNext env l) l.toRegs text) (hc : QuoteTidy env l)
    (hb : env.buf[l.t]? = some c) (ht : l.t ≠ env.len) :
    KeepsDepth env text (textAfter env l text) (switch env c l) := by
  have h := hc.succeeds
  by_cases h8 : l.state = .s8
  · rw [textAfter_quoted (.inl h8) hb, switch, h8]
    exact keepsDepth_count (hi.counted_list h8 fun hp => hp.byte hb) (passes_storeEsc h)
      fun m hq hs => rests_endQuotedList h hq hs
  by_cases h10 : l.state = .s10
  · obtain ⟨hcounts, hpos⟩ := hi.string h10
    rw [textAfter_quoted (.inr h10) hb, switch, h10]
    refine keepsDepth_string (counted_string h10 hcounts hpos) ?_ (passes_storeEsc h)
    split_ifs <;> simp [h10]
  have hr := hi.atRest h8 h10
  have hq := hr.qdepth
  rw [textAfter_unquoted h8 h10, switch]
  cases hs : l.state with
  | s1 => exact (rests_state1 h hr).keepsDepth
  | s2 => exact (rests_state2 h hq).keepsDepth
  | s3 => exact (rests_state3 hr).keepsDepth
  | s4 => exact (rests_state4 h hr).keepsDepth
  | s5 => exact (rests_state5 h hq hs).keepsDepth
  | s6 => exact Rests.keepsDepth ⟨hq, rfl⟩
  | s7 => exact keepsDepth_state7 hi hc hs hb ht
  | s8 => exact absurd hs h8
  | s9 => exact absurd hs hi.closing
  | s10 => exact absurd hs h10
  | s11 => exact (rests_state11 hq).keepsDepth
  | s12 => exact (rests_state12 h hq).keepsDepth
  | s13 => exact (rests_state13 h hq).keepsDepth
  | s14 => exact (rests_state14 h hr).keepsDepth
  | s15 => exact (rests_state15 h hr).keepsDepth
  | unknown => exact Rests.keepsDepth ⟨hq, by simp [hs, quotes]⟩

lemma keepsDepth_cparseHead (hi : DepthInv (ParenNext env l) l.toRegs text) (hc : QuoteTidy env l) :
    KeepsDepth env text (textAfter env l text) (cparseHead env l) := by
  rw [cparseHead]
  by_cases h15 : l.state = .s15
  · rw [if_pos h15]
    split_ifs with ht
    · exact keepsDepth_finish hi hc (.inl ht)
    · exact (rests_state15 hc.succeeds (hi.atRest (by simp [h15]) (by simp [h15]))).keepsDepth
  · rw [if_neg h15, Env.read]
    cases hb : env.buf[l.t]? with
    | none => trivial
    | some c =>
      simp only [ok_bind]
      split_ifs with hn
      · refine keepsDepth_finish hi hc ?_
        rcases hn with rfl | ht
        · exact .inr ⟨h15, hb⟩
        · exact .inl ht
      · exact keepsDepth_switch hi hc hb fun ht => hn (.inr ht)

end Rounds

namespace EventEnv

open Sfsexp.EventEnv

variable {env : EventEnv} {l : Locals} {text text' : List Byte} {c : Byte}

lemma keepsDepth_state7 (hi : DepthInv (ParenNext env.toEnv l) l.toRegs text)
    (hc : QuoteTidy env.toEnv l) (hs : l.state = .s7) (hb : env.buf[l.t]? = some c)
    (ht : l.t ≠ env.len) : KeepsDepth env.toEnv text [] (env.state7 c l) := by
  have hq := hi.rest (by simp [hs]) (by simp [hs])
  rw [EventEnv.state7]
  split_ifs with h1 h2
  · refine Rests.keepsDepth ((passes_store hc.succeeds).rests fun l₁ h₁ => ?_)
    exact ⟨h₁.qdepth.trans hq, by simp [h₁.state, quotes]⟩
  · subst h2
    exact keepsDepth_start hq (hc.escape hs ⟨hb, ht⟩) ⟨hb, ht⟩
  · exact Rests.keepsDepth ⟨hq, rfl⟩

lemma keepsDepth_finish (hi : DepthInv (ParenNext env.toEnv l) l.toRegs text)
    (hc : QuoteTidy env.toEnv l) (hend : AtEnd env.toEnv l) :
    KeepsDepth env.toEnv text text' (.error (env.finish l)) := by
  by_cases hs : l.state = .s8 ∨ l.state = .s10
  · have hstay : ¬ (l.depth = 0 ∧ 0 < l.elts) := fun h => by
      obtain ⟨h8, h10⟩ := hc.exit hend h.1 h.2
      rcases hs with hs | hs
      · exact h8 hs
      · exact h10 hs
    rw [EventEnv.finish, if_neg hstay]
    split
    · trivial
    · exact hi.atEnd hend
  · have h8 : l.state ≠ .s8 := fun h => hs (.inl h)
    have h10 : l.state ≠ .s10 := fun h => hs (.inr h)
    exact Rests.keepsDepth (rests_finish (hi.atRest h8 h10))

lemma keepsDepth_switch (hi : DepthInv (ParenNext env.toEnv l) l.toRegs text)
    (hc : QuoteTidy env.toEnv l) (hb : env.buf[l.t]? = some c) (ht : l.t ≠ env.len) :
    KeepsDepth env.toEnv text (textAfter env.toEnv l text) (env.switch c l) := by
  have h := hc.succeeds
  by_cases h8 : l.state = .s8
  · rw [textAfter_quoted (.inl h8) hb, EventEnv.switch, h8]
    exact keepsDepth_count (hi.counted_list h8 fun hp => hp.byte hb) (passes_storeEsc h)
      fun m hq hs => rests_endQuotedList hq hs
  by_cases h10 : l.state = .s10
  · obtain ⟨hcounts, hpos⟩ := hi.string h10
    rw [textAfter_quoted (.inr h10) hb, EventEnv.switch, h10]
    refine keepsDepth_string (counted_string h10 hcounts hpos) ?_ (passes_storeEsc h)
    split_ifs <;> simp [h10]
  have hr := hi.atRest h8 h10
  have hq := hr.qdepth
  rw [textAfter_unquoted h8 h10, EventEnv.switch]
  cases hs : l.state with
  | s1 => exact (rests_state1 h hr).keepsDepth
  | s2 => exact Rests.keepsDepth ⟨hq, rfl⟩
  | s3 => exact (rests_state3 hq).keepsDepth
  | s4 => exact (rests_state4 h hr).keepsDepth
  | s5 => exact (rests_state5 h hq hs).keepsDepth
  | s6 => exact Rests.keepsDepth ⟨hq, rfl⟩
  | s7 => exact keepsDepth_state7 hi hc hs hb ht
  | s8 => exact absurd hs h8
  | s9 => exact absurd hs hi.closing
  | s10 => exact absurd hs h10
  | s11 => exact (rests_state11 hq).keepsDepth
  | s12 => exact (rests_state12 h hq).keepsDepth
  | s13 => exact (rests_state13 h hq).keepsDepth
  | s14 => exact (rests_state14 h hr).keepsDepth
  | s15 => exact (rests_state15 hr).keepsDepth
  | unknown => exact Rests.keepsDepth ⟨hq, by simp [hs, quotes]⟩

lemma keepsDepth_eparseHead (hi : DepthInv (ParenNext env.toEnv l) l.toRegs text)
    (hc : QuoteTidy env.toEnv l) :
    KeepsDepth env.toEnv text (textAfter env.toEnv l text) (env.eparseHead l) := by
  rw [EventEnv.eparseHead]
  by_cases h15 : l.state = .s15
  · rw [if_pos h15]
    split_ifs with ht
    · exact keepsDepth_finish hi hc (.inl ht)
    · exact (rests_state15 (hi.atRest (by simp [h15]) (by simp [h15]))).keepsDepth
  · rw [if_neg h15, Env.read]
    cases hb : env.buf[l.t]? with
    | none => trivial
    | some c =>
      simp only [ok_bind]
      split_ifs with hn
      · refine keepsDepth_finish hi hc ?_
        rcases hn with rfl | ht
        · exact .inr ⟨h15, hb⟩
        · exact .inl ht
      · exact keepsDepth_switch hi hc hb fun ht => hn (.inr ht)

end EventEnv

section Runs

variable {k : Call} {cc : Pcont} {l : Locals} {text : List Byte}

lemma DepthInv.mono {first first' : Prop} {l : Regs} (h : DepthInv first l text)
    (himp : first → first') : DepthInv first' l text :=
  ⟨h.closing, h.rest,
    fun hs => ⟨(h.list hs).1, (h.list hs).2.imp_right fun h => ⟨h.1, himp h.2⟩⟩, h.string⟩

lemma keepsDepth_head (hi : DepthInv (ParenNext k.env l) l.toRegs text) (hc : QuoteTidy k.env l) :
    KeepsDepth k.env text (textAfter k.env l text) (k.head cc l) := by
  rw [Call.head]
  split_ifs
  · exact EventEnv.keepsDepth_eparseHead hi hc
  · exact keepsDepth_cparseHead hi hc

/-- What the rounds of one call preserve, with the quoted text beside them. -/
lemma depthInv_of_reaches {m m' : Locals × List Byte}
    (hi : DepthInv (ParenNext k.env m.1) m.1.toRegs m.2)
    (h : Loop.ReachesWhile (quotedHead k cc) (fun m => QuoteTidy k.env m.1) m m') :
    DepthInv (ParenNext k.env m'.1) m'.1.toRegs m'.2 := by
  have hstep : ∀ m₁ m₂ : Locals × List Byte, DepthInv (ParenNext k.env m₁.1) m₁.1.toRegs m₁.2 →
      QuoteTidy k.env m₁.1 → quotedHead k cc m₁ = .ok m₂ →
      DepthInv (ParenNext k.env m₂.1) m₂.1.toRegs m₂.2 := by
    intro m₁ m₂ hi hc hnext
    have hk := @keepsDepth_head k cc m₁.1 m₁.2 hi hc
    rw [quotedHead] at hnext
    cases hhead : k.head cc m₁.1 with
    | error e =>
      rw [hhead] at hnext
      cases hnext
    | ok l =>
      rw [hhead] at hnext hk
      cases hnext
      exact hk
  exact Loop.invariant_of_step_while hstep hi h

lemma depthInv_new (g : Setup) : DepthInv False (Pcont.new g).toRegs [] :=
  AtRest.depthInv ⟨rfl, rfl⟩

/-- The counter of every continuation a client gets hold of. -/
lemma depthInv_of_session (h : QuotedSession QuoteTidy cc text) :
    DepthInv False cc.toRegs text := by
  induction h with
  | @start g _ _ h =>
    rw [(initContinuation_eq_new h).1]
    exact depthInv_new g
  | configure _ mode handlers ih =>
    refine ⟨ih.closing, ih.rest, fun hs => ?_, fun hs => ?_⟩
    · obtain ⟨⟨hesc, hin, hdepth⟩, hpos⟩ := ih.list hs
      exact ⟨⟨hesc, hin, hdepth⟩, hpos⟩
    · obtain ⟨⟨hesc, hin, hdepth⟩, hpos⟩ := ih.string hs
      exact ⟨⟨hesc, hin, hdepth⟩, hpos⟩
  | @call cc k allocs l _ text' r _ hrun hlast hret ih =>
    have henter := depthInv_of_reaches (ih.mono False.elim) hrun
    have hk := @keepsDepth_head k cc l text' henter hlast
    rwa [hret] at hk

/-- In every sequence of calls whose rounds are tidy, the depth counter is 0 outside of quoted lists
and the number of parentheses left open inside of them, and it is positive whenever a closing
parenthesis decrements it. -/
theorem quoted_depth_counted (hcc : QuotedSession QuoteTidy cc text) {allocs : Nat}
    {text' : List Byte}
    (hrun : Loop.ReachesWhile (quotedHead k cc) (fun m => QuoteTidy k.env m.1)
      (cc.enter allocs, text) (l, text')) :
    (l.state ≠ .s8 → l.state ≠ .s10 → l.qdepth = 0) ∧
      (l.state = .s8 ∨ l.state = .s10 → l.qdepth = opened text') ∧
      (Decrements k.env l → 1 ≤ l.qdepth) := by
  have henter : DepthInv (ParenNext k.env (cc.enter allocs)) cc.toRegs text :=
    (depthInv_of_session hcc).mono False.elim
  have hi : DepthInv (ParenNext k.env l) l.toRegs text' := depthInv_of_reaches henter hrun
  refine ⟨hi.rest, ?_, ?_⟩
  · rintro (hs | hs)
    · exact (hi.list hs).1.depth.symm
    · exact (hi.string hs).1.depth.symm
  · rintro ⟨hs, hb, -, -⟩
    refine (hi.list hs).2.resolve_right fun h => ?_
    have hp := h.2.byte hb
    exact absurd hp (by decide)

/-- The first rounds of a new client's call on a text. -/
def firstHeads (n : Nat) (text : List Byte) : List (Locals × List Byte) :=
  Loop.heads (quotedHead ⟨.plain, text ++ [nul], text.length, .ok⟩ (Pcont.new .plain)) n
    ((Pcont.new .plain).enter 0, [])

/-- In `'(a)`, at the closing parenthesis. -/
theorem quoted_depth_counted_closing :
    ∃ m ∈ firstHeads 5 [tick, lparen, 97, rparen],
      Decrements (Call.env ⟨.plain, [tick, lparen, 97, rparen, nul], 4, .ok⟩) m.1 ∧
        m.1.qdepth = opened m.2 ∧ 1 ≤ m.1.qdepth := by
  obtain ⟨m, hm, hdec⟩ : ∃ m ∈ firstHeads 5 [tick, lparen, 97, rparen],
      Decrements (Call.env ⟨.plain, [tick, lparen, 97, rparen, nul], 4, .ok⟩) m.1 := by
    decide +kernel
  have hinside : ∀ m ∈ firstHeads 5 [tick, lparen, 97, rparen],
      m.1.esc = false ∧ ¬ (m.1.t = 4 ∨ [tick, lparen, 97, rparen, nul][m.1.t]? = some nul) := by
    decide +kernel
  have htidy : ∀ m ∈ firstHeads 5 [tick, lparen, 97, rparen],
      QuoteTidy (Call.env ⟨.plain, [tick, lparen, 97, rparen, nul], 4, .ok⟩) m.1 := fun m hm => by
    obtain ⟨hesc, hend⟩ := hinside m hm
    exact ⟨fun _ => rfl, fun _ _ => hesc, fun h => absurd (h.imp_right And.right) hend⟩
  obtain ⟨-, hcount, hpos⟩ := quoted_depth_counted
    (.start (initContinuation_of_succeeds fun _ => rfl)) (Loop.reachesWhile_of_mem_heads hm htidy)
  exact ⟨m, hm, hdec, hcount (.inl hdec.1), hpos hdec⟩

/-- In `(a\\ '(b))` the parenthesis behind the apostrophe is taken as escaped, and the one that
closes the list is counted below zero. -/
theorem stale_escape_uncounts :
    (cparseSexp .plain (some [lparen, 97, backslash, space, tick, lparen, 98, rparen, rparen, nul]) 9
        none .ok).faultOf = none ∧
      ∃ m ∈ firstHeads 20 [lparen, 97, backslash, space, tick, lparen, 98, rparen, rparen],
        Decrements (Call.env ⟨.plain,
          [lparen, 97, backslash, space, tick, lparen, 98, rparen, rparen, nul], 9, .ok⟩) m.1 ∧
          m.1.qdepth = 0 ∧ opened m.2 = 1 := by
  decide +kernel

end Runs

end Sfsexp.Proofs
