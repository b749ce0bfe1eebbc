import Sfsexp.Proofs.InlineTokens

/-!
# Quoted atoms in inline binary mode

The rounds on a double-quoted atom, with its escapes, and on the texts behind an apostrophe.
-/

namespace Sfsexp.Proofs

open Sfsexp Spec

section Strings

variable {env : Env} {l : Locals} {c d : Byte} {t u v w text : List Byte} {sq : Bool}
  {T : List Sexp} {Ls L : List (List Sexp)}

lemma noNul_quoted (h : nul ∉ text) : nul ∉ if sq then text ++ [dquote] else text := by
  cases sq with
  | false => exact h
  | true =>
    simp only [if_true, List.mem_append, not_or]
    exact ⟨h, by decide⟩

/-- The closing quote, and the byte behind it. -/
lemma string_close (h : env.Succeeds) (ht : Token .s5 sq 0 text (T :: Ls) l.toRegs) (hn : nul ∉ text)
    (hc : Separates c) (hrest : Rest env l.t (dquote :: c :: w)) :
    ∃ l', state5Rest env dquote l = .ok l' ∧
      Gets env (behind c w) (Gained (quotedOf sq text) (stateBehind c) T Ls) l' := by
  obtain ⟨v, a, u, k, hclose, hlen, hfree, htext⟩ := closingQuote_ok h (l := { l with state := .s6 })
    ⟨ht.room.cells, ht.room.free⟩ ht.cursor
  generalize hl₁ : ({ l with state := .s6, val := v, valAllocated := a, valUsed := u, vcur := u
                             allocs := k } : Locals) = l₁ at hclose
  have hsame : l₁.mode = l.mode ∧ l₁.stack = l.stack ∧ l₁.depth = l.depth ∧
      l₁.qdepth = l.qdepth ∧ l₁.esc = l.esc ∧ l₁.t = l.t ∧ l₁.squoted = l.squoted ∧
      l₁.state = .s6 := by
    rw [← hl₁]
    exact ⟨rfl, rfl, rfl, rfl, rfl, rfl, rfl, rfl⟩
  obtain ⟨hmode₁, hstack₁, hdepth₁, hqd₁, hesc₁, ht₁, hsq₁, hs₁⟩ := hsame
  have hr₁ : Room l₁.toRegs := by
    rw [← hl₁]
    exact ⟨hlen, hfree⟩
  have hv₁ : l₁.vcur = l₁.valUsed := by rw [← hl₁]
  have hlt : l₁.vcur < l₁.val.length := by rw [hv₁, hr₁.cells]; exact hr₁.free
  have htext₁ : l₁.val.take l₁.valUsed = if sq then text ++ [dquote] else text := by
    rw [← hl₁, ← ht.text, ← ht.squoted]
    exact htext
  have hn₁ : nul ∉ l₁.val.take l₁.valUsed := by
    rw [htext₁]
    exact noNul_quoted hn
  obtain ⟨s, hend, hok⟩ := endQuoted_open h hclose hlt (by rw [hstack₁]; exact ht.stack)
  refine ⟨_, by rw [state5Rest, if_pos rfl, hend], ?_⟩
  have htree : (atomOf (quotedType l₁) (terminated l₁)).tree = quotedOf sq text := by
    rw [atomOf, Sexp.tree, terminated, cstr_terminated hr₁ hv₁ hn₁, htext₁, quotedType, hsq₁,
      ht.squoted, quotedOf]
    cases sq <;> rfl
  have hwhole : Whole (atomOf (quotedType l₁) (terminated l₁)) := by
    have hsealed : Sealed (atomOf (quotedType l₁) (terminated l₁)) :=
      sealed_terminated hr₁ hv₁ hn₁ (Nat.le_succ _) (Nat.le_refl _)
    exact hsealed.whole
  generalize hl₂ : ({ emitted env (quotedType l₁) { terminated l₁ with squoted := false } with
    stack := s, t := l₁.t + 1 } : Locals) = l₂
  have hgap : Gap .s6 ((T ++ [atomOf (quotedType l₁) (terminated l₁)]) :: Ls) l₂.toRegs := by
    have hroom : ∀ l' : Regs, l'.val = env.fresh env.params.startSize →
        l'.valAllocated = env.params.startSize → l'.valUsed = 0 → Room l' := fun l' => Room.fresh
    have hdepth : l.depth = ((T ++ [atomOf (quotedType l₁) (terminated l₁)]) :: Ls).length := by
      rw [ht.depth]
      simp
    rw [← hl₂]
    exact ⟨⟨hmode₁.trans ht.mode, hroom _ rfl rfl rfl, hesc₁.trans ht.esc, hok,
      hdepth₁.trans hdepth⟩, hs₁, rfl, rfl, hqd₁.trans ht.qdepth⟩
  have hrest₂ : Rest env l₂.t (c :: w) := by
    rw [← hl₂]
    dsimp only
    rw [ht₁]
    exact hrest.tail
  have hs₂ := hgap.state
  have hround : cparseHead env l₂ = .ok { l₂ with state := .s1, vcur := 0 } := by
    rw [head_of_rest hrest₂ hc.plain.2.1 (by simp [hs₂]), switch, hs₂]
  exact .step hround (settle_gained hc ⟨_, htree, hwhole, hgap.to⟩ hrest₂)

lemma state5_plain (he : l.esc = false) : state5 env c l = state5Rest env c l := by
  rw [state5, he, Bool.false_and, if_neg (by simp)]

/-- A round inside double quotes. -/
lemma string_head (ht : Token .s5 sq 0 text L l.toRegs) (hc : c ≠ nul)
    (hrest : Rest env l.t (c :: w)) : cparseHead env l = state5Rest env c l := by
  have hs := ht.state
  have hswitch : switch env c l = state5 env c l := by rw [switch, hs]
  rw [head_of_rest hrest hc (by simp [hs]), hswitch, state5_plain ht.esc]

/-- The byte behind a backslash takes its place, and the byte behind that one is handled in the same
round. -/
lemma string_escape (h : env.Succeeds) (ht : Token .s5 sq 0 text L l.toRegs)
    (he : isEscapable c = true) (hc : c ≠ nul) (hrest : Rest env l.t (backslash :: c :: d :: w)) :
    ∃ m m', state5Rest env backslash l = .ok m ∧ cparseHead env m = state5Rest env d m' ∧
      Token .s5 sq 0 (text ++ [c]) L m'.toRegs ∧ Rest env m'.t (d :: w) := by
  have hs := ht.state
  obtain ⟨v, a, k, hstore, happ⟩ := store_ok h ht.room ht.cursor backslash
  have hfree := happ.free
  have hcells := happ.cells
  have hlt : l.valUsed < v.length := by omega
  have hfirst : state5Rest env backslash l = .ok { l with
      val := v, valAllocated := a, valUsed := l.valUsed + 1, vcur := l.valUsed + 1, allocs := k
      esc := true, t := l.t + 1 } := by
    rw [state5Rest, if_neg (by decide), hstore, ok_bind]
    rfl
  refine ⟨_, { l with
      val := v.set l.valUsed c, valAllocated := a, valUsed := l.valUsed + 1, vcur := l.valUsed + 1
      allocs := k, esc := false, t := l.t + 2 }, hfirst, ?_, ?_, hrest.tail.tail⟩
  · rw [head_of_rest hrest.tail hc (by simp [hs]), switch]
    simp only [hs]
    rw [state5, if_pos (by simpa using he), overwrite_ok rfl hlt, ok_bind, Env.read,
      hrest.tail.tail.get]
    rfl
  · refine ⟨⟨ht.mode, ⟨by simpa using hcells, hfree⟩, rfl, ht.stack, ht.depth⟩, hs, rfl, ?_,
      ht.squoted, ht.qdepth⟩
    have htaken : v.take l.valUsed = text := by
      have htext := congrArg (List.take l.valUsed) happ.text
      rw [List.take_take, Nat.min_eq_left (Nat.le_succ _), ht.text] at htext
      have hlen : text.length = l.valUsed := by
        rw [← ht.text, List.length_take, ht.room.cells]
        have := ht.room.free
        omega
      rw [htext, ← hlen, List.take_left]
    rw [Cells.take_succ_set hlt, htaken]

/-- What is inside double quotes does not start with a NUL. -/
lemma escaped_cons (hn : nul ∉ t) (w : List Byte) :
    ∃ d v, escapeText t ++ dquote :: w = d :: v ∧ d ≠ nul := by
  cases t with
  | nil => exact ⟨dquote, w, rfl, by decide⟩
  | cons e t =>
    rw [escapeText]
    split_ifs
    · exact ⟨backslash, _, rfl, by decide⟩
    · exact ⟨e, _, rfl, fun h => hn (h ▸ List.mem_cons_self)⟩

/-- The text up to the closing quote, from inside a round on its first byte. -/
lemma string_bytes (h : env.Succeeds) (ht : Token .s5 sq 0 text (T :: Ls) l.toRegs)
    (hn : nul ∉ text) (hnt : nul ∉ t) (hc : Separates c)
    (hd : escapeText t ++ dquote :: c :: w = d :: v) (hrest : Rest env l.t (d :: v)) :
    ∃ l', state5Rest env d l = .ok l' ∧
      Gets env (behind c w) (Gained (quotedOf sq (text ++ t)) (stateBehind c) T Ls) l' := by
  induction t generalizing l text d v with
  | nil =>
    obtain ⟨rfl, rfl⟩ := List.cons.inj hd
    rw [List.append_nil]
    exact string_close h ht hn hc hrest
  | cons e t ih =>
    obtain ⟨he, hnt⟩ := not_or.mp (mt List.mem_cons.mpr hnt)
    have hnext : nul ∉ text ++ [e] := by
      rw [List.mem_append, List.mem_singleton]
      exact not_or.mpr ⟨hn, he⟩
    obtain ⟨d', v', hd', hnul⟩ := escaped_cons hnt (c :: w)
    rw [escapeText] at hd
    split_ifs at hd with hspecial
    · rw [List.cons_append, List.cons_append, hd'] at hd
      obtain ⟨rfl, rfl⟩ := List.cons.inj hd
      have hescapable : isEscapable e = true := by
        rcases hspecial with rfl | rfl <;> rfl
      obtain ⟨m, m', hfirst, hsecond, hm', hrest'⟩ :=
        string_escape h ht hescapable (Ne.symm he) hrest
      obtain ⟨l', hrun, hgets⟩ := ih hm' hnext hnt hd' hrest'
      rw [List.append_assoc, List.singleton_append] at hgets
      exact ⟨m, hfirst, .step (hsecond.trans hrun) hgets⟩
    · rw [List.cons_append, hd'] at hd
      obtain ⟨rfl, rfl⟩ := List.cons.inj hd
      obtain ⟨hquote, hb⟩ := not_or.mp hspecial
      obtain ⟨m, hstore, hmt, hm⟩ := ht.store (c := e) h
      have hfirst : state5Rest env e l = .ok { m with esc := false, t := m.t + 1 } := by
        have hclear : (e == backslash) = false := by simpa using hb
        rw [state5Rest, if_neg hquote, hstore, ok_bind, hclear]
      have hm' : Token .s5 sq 0 (text ++ [e]) (T :: Ls)
          ({ m with esc := false, t := m.t + 1 } : Locals).toRegs :=
        ⟨⟨hm.mode, ⟨hm.room.cells, hm.room.free⟩, rfl, hm.stack, hm.depth⟩, hm.state, hm.cursor,
          hm.text, hm.squoted, hm.qdepth⟩
      have hrest' : Rest env (m.t + 1) (d' :: v') := by
        rw [hmt]
        exact hrest.tail
      obtain ⟨l', hrun, hgets⟩ := ih hm' hnext hnt hd' hrest'
      rw [List.append_assoc, List.singleton_append] at hgets
      exact ⟨_, hfirst, .step ((string_head hm' hnul hrest').trans hrun) hgets⟩

/-- A double-quoted atom. -/
lemma dquote_run (h : env.Succeeds) (hg : Gap .s1 (T :: Ls) l.toRegs) (hn : nul ∉ text)
    (hc : Separates c) (hrest : Rest env l.t (renderAtom .dquote text ++ c :: w)) :
    Gets env (behind c w) (Gained (.atom .dquote text) (stateBehind c) T Ls) l := by
  have hbytes : renderAtom .dquote text ++ c :: w = dquote :: (escapeText text ++ dquote :: c :: w) := by
    simp [renderAtom]
  obtain ⟨d, v, hd, hnul⟩ := escaped_cons hn (c :: w)
  rw [hbytes, hd] at hrest
  have hopen : cparseHead env l = .ok { l with state := .s5, vcur := 0, t := l.t + 1 } := by
    rw [gap_head hg (by decide) hrest]
    rfl
  have ht : Token .s5 false 0 [] (T :: Ls)
      ({ l with state := .s5, vcur := 0, t := l.t + 1 } : Locals).toRegs := by
    rw [← hg.squoted]
    exact hg.token
  obtain ⟨l', hrun, hgets⟩ := string_bytes h ht (by simp) hn hc hd hrest.tail
  exact .step hopen (.step ((string_head ht hnul hrest.tail).trans hrun) hgets)

end Strings

section Lists

variable {env : Env} {l : Locals} {c : Byte} {u w text : List Byte} {s : State} {qd qd' : Int}
  {T : List Sexp} {Ls L : List (List Sexp)}

lemma list_head (ht : Token .s8 false qd text L l.toRegs) (hc : c ≠ nul)
    (hrest : Rest env l.t (c :: w)) : cparseHead env l = state8 env c l := by
  have hs := ht.state
  rw [head_of_rest hrest hc (by simp [hs]), switch, hs]

/-- The depth and the state after the byte `c` of a quoted list. -/
def counted (c : Byte) (qd : Int) : Int × State :=
  if c = lparen then (qd + 1, .s8)
  else if c = rparen then (qd - 1, .s9)
  else if c = dquote then (qd, .s10)
  else (qd, .s8)

lemma countParen_eq (ht : Token .s8 false qd text L l.toRegs) :
    countParen c l = { l with qdepth := (counted c qd).1, state := (counted c qd).2 } := by
  have hs := ht.state
  have hq := ht.qdepth
  rw [countParen, ht.esc, if_neg (by simp), counted]
  split_ifs
  · rw [← hq, ← hs]
  · rw [← hq]
  · rw [← hq]
  · rw [← hq, ← hs, ← ht.esc]

/-- The byte is counted and stored. -/
lemma list_stored (h : env.Succeeds) (ht : Token .s8 false qd text L l.toRegs) (hb : c ≠ backslash) :
    ∃ m, storeEsc env c (countParen c l) = .ok m ∧ m.t = l.t ∧
      Token (counted c qd).2 false (counted c qd).1 (text ++ [c]) L m.toRegs := by
  have hcounted : Token (counted c qd).2 false (counted c qd).1 text L
      ({ l with qdepth := (counted c qd).1, state := (counted c qd).2 } : Locals).toRegs :=
    ⟨⟨ht.mode, ⟨ht.room.cells, ht.room.free⟩, ht.esc, ht.stack, ht.depth⟩, rfl, ht.cursor, ht.text,
      ht.squoted, rfl⟩
  rw [countParen_eq ht]
  exact hcounted.storeEsc h hb

/-- A byte that does not end the list. -/
lemma list_byte (h : env.Succeeds) (ht : Token .s8 false qd text L l.toRegs) (hb : c ≠ backslash)
    (hc : c ≠ nul) (hcount : counted c qd = (qd', s)) (h9 : s = .s9 → qd' ≠ 0)
    (hrest : Rest env l.t (c :: w)) :
    Gets env w (fun l' => Token (if s = .s9 then .s8 else s) false qd' (text ++ [c]) L l'.toRegs)
      l := by
  obtain ⟨m, hstore, hm, htoken⟩ := list_stored h ht hb
  rw [hcount] at htoken
  have hs := htoken.state
  have hq := htoken.qdepth
  have hrest' : Rest env (m.t + 1) w := by
    rw [hm]
    exact hrest.tail
  by_cases hs9 : s = .s9
  · have hround : cparseHead env l = .ok { m with t := m.t + 1, state := .s8 } := by
      rw [list_head ht hc hrest, state8, hstore, ok_bind]
      dsimp only
      rw [if_pos (hs.trans hs9), state9, if_neg (by dsimp only; rw [hq]; exact h9 hs9)]
    refine .step hround (.here hrest' ?_)
    rw [if_pos hs9]
    exact htoken.to
  · have hround : cparseHead env l = .ok { m with t := m.t + 1 } := by
      rw [list_head ht hc hrest, state8, hstore, ok_bind]
      dsimp only
      rw [if_neg (by rw [hs]; exact hs9)]
    refine .step hround (.here hrest' ?_)
    rw [if_neg hs9]
    exact htoken

/-- A byte inside double quotes of the list. -/
lemma list_string_byte (h : env.Succeeds) (ht : Token .s10 false qd text L l.toRegs)
    (hb : c ≠ backslash) (hc : c ≠ nul) (hrest : Rest env l.t (c :: w)) :
    Gets env w (fun l' => Token (if c = dquote then .s8 else .s10) false qd (text ++ [c]) L
      l'.toRegs) l := by
  have hs := ht.state
  have hswitch : switch env c l = state10 env c l := by rw [switch, hs]
  by_cases hd : c = dquote
  · obtain ⟨m, hstore, hm, htoken⟩ := Token.storeEsc (l := { l with state := .s8 }) h ht.to hb
    have hround : cparseHead env l = .ok { m with t := m.t + 1 } := by
      rw [head_of_rest hrest hc (by simp [hs]), hswitch, state10, if_pos ⟨hd, ht.esc⟩, hstore, ok_bind]
    refine .step hround (.here ?_ ?_)
    · dsimp only
      rw [hm]
      exact hrest.tail
    · rw [if_pos hd]
      exact htoken
  · obtain ⟨m, hstore, hm, htoken⟩ := ht.storeEsc h hb
    have hround : cparseHead env l = .ok { m with t := m.t + 1 } := by
      rw [head_of_rest hrest hc (by simp [hs]), hswitch, state10, if_neg (fun h => hd h.1), hstore,
        ok_bind]
    refine .step hround (.here ?_ ?_)
    · dsimp only
      rw [hm]
      exact hrest.tail
    · rw [if_neg hd]
      exact htoken

lemma list_string (h : env.Succeeds) (ht : Token .s10 false qd text L l.toRegs) (hd : dquote ∉ u)
    (hb : backslash ∉ u) (hn : nul ∉ u) (hrest : Rest env l.t (u ++ dquote :: w)) :
    Gets env w (fun l' => Token .s8 false qd (text ++ u ++ [dquote]) L l'.toRegs) l := by
  induction u generalizing l text with
  | nil =>
    rw [List.append_nil]
    exact list_string_byte h ht (by decide) (by decide) hrest
  | cons c u ih =>
    obtain ⟨hcd, hd⟩ := not_or.mp (mt List.mem_cons.mpr hd)
    obtain ⟨hcb, hb⟩ := not_or.mp (mt List.mem_cons.mpr hb)
    obtain ⟨hcn, hn⟩ := not_or.mp (mt List.mem_cons.mpr hn)
    refine (list_string_byte h ht (Ne.symm hcb) (Ne.symm hcn) hrest).trans ?_
    intro m hahead hm
    rw [if_neg (Ne.symm hcd)] at hm
    have hgets := ih hm hd hb hn hahead
    rwa [List.append_assoc text, List.singleton_append] at hgets

/-- A text with matching parens leaves the depth as it was. -/
lemma list_balanced (h : env.Succeeds) (hu : Balanced u) (ht : Token .s8 false qd text L l.toRegs)
    (hpos : 0 < qd) (hb : backslash ∉ u) (hn : nul ∉ u) (hrest : Rest env l.t (u ++ w)) :
    Gets env w (fun l' => Token .s8 false qd (text ++ u) L l'.toRegs) l := by
  induction hu generalizing l text qd w with
  | nil => exact .here hrest (by simpa using ht)
  | byte c t hl hr hd hbal ih =>
    obtain ⟨hcb, hb⟩ := not_or.mp (mt List.mem_cons.mpr hb)
    obtain ⟨hcn, hn⟩ := not_or.mp (mt List.mem_cons.mpr hn)
    have hcount : counted c qd = (qd, .s8) := by rw [counted, if_neg hl, if_neg hr, if_neg hd]
    refine (list_byte h ht (Ne.symm hcb) (Ne.symm hcn) hcount (by simp) hrest).trans ?_
    intro m hahead hm
    have hgets := ih hm hpos hb hn hahead
    rwa [List.append_assoc text, List.singleton_append] at hgets
  | string v t hv hbal ih =>
    simp only [List.cons_append, List.mem_cons, List.mem_append, not_or] at hb hn
    obtain ⟨-, hbv, -, hbt⟩ := hb
    obtain ⟨-, hnv, -, hnt⟩ := hn
    rw [List.cons_append, List.cons_append, List.append_assoc] at hrest
    refine (list_byte h ht (c := dquote) (by decide) (by decide) rfl (by simp) hrest).trans ?_
    intro m hahead hm
    refine (list_string h hm hv hbv hnv hahead).trans ?_
    intro m hahead hm
    have hgets := ih hm hpos hbt hnt hahead
    simpa using hgets
  | group v t hv hbal ihv iht =>
    simp only [List.cons_append, List.mem_cons, List.mem_append, not_or] at hb hn
    obtain ⟨-, hbv, -, hbt⟩ := hb
    obtain ⟨-, hnv, -, hnt⟩ := hn
    rw [List.cons_append, List.cons_append, List.append_assoc] at hrest
    refine (list_byte h ht (c := lparen) (by decide) (by decide) rfl (by simp) hrest).trans ?_
    intro m hahead hm
    refine (ihv hm (by omega) hbv hnv hahead).trans ?_
    intro m hahead hm
    have hcount : counted rparen (qd + 1) = (qd, .s9) := by
      rw [counted, if_neg (by decide), if_pos rfl, Int.add_sub_cancel]
    refine (list_byte h hm (by decide) (by decide) hcount (by omega) hahead).trans ?_
    intro m hahead hm
    have hgets := iht hm hpos hbt hnt hahead
    simpa using hgets

/-- The closing paren of the list, and the byte behind it. -/
lemma list_close (h : env.Succeeds) (ht : Token .s8 false 1 text (T :: Ls) l.toRegs)
    (hn : nul ∉ text) (hc : Separates c) (hrest : Rest env l.t (rparen :: c :: w)) :
    Gets env (behind c w) (Gained (.atom .squote (text ++ [rparen])) (stateBehind c) T Ls) l := by
  obtain ⟨m, hstore, hmt, hm⟩ := list_stored (c := rparen) h ht (by decide)
  have hs : m.state = .s9 := hm.state
  have hq : m.qdepth = 0 := hm.qdepth
  have hn' : nul ∉ m.val.take m.valUsed := by
    rw [hm.text, List.mem_append, List.mem_singleton]
    exact not_or.mpr ⟨hn, by decide⟩
  generalize hl₁ : ({ m with t := m.t + 1, state := .s1 } : Locals) = l₁
  have hsame : l₁.toRegs = { m.toRegs with state := .s1 } ∧ l₁.t = l.t + 1 := by
    rw [← hl₁, ← hmt]
    exact ⟨rfl, rfl⟩
  obtain ⟨hregs, ht₁⟩ := hsame
  have htoken : Token .s1 false 0 (text ++ [rparen]) (T :: Ls) l₁.toRegs := by
    rw [hregs]
    exact hm.to
  have hlt : l₁.vcur < l₁.val.length := by
    rw [htoken.cursor, htoken.room.cells]
    exact htoken.room.free
  have hn₁ : nul ∉ l₁.val.take l₁.valUsed := by
    rw [hregs]
    exact hn'
  obtain ⟨s, hend, hok⟩ := endQuotedList_open h hlt htoken.stack
  have hround : cparseHead env l =
      .ok { emitted env .squote (terminatedList l₁) with stack := s } := by
    rw [list_head ht (by decide) hrest, state8, hstore, ok_bind]
    dsimp only
    rw [if_pos hs, state9, if_pos hq, hl₁, hend]
  have htree : (atomOf .squote (terminatedList l₁)).tree = .atom .squote (text ++ [rparen]) := by
    rw [atomOf, Sexp.tree, terminatedList, cstr_terminated htoken.room htoken.cursor hn₁,
      htoken.text]
  have hwhole : Whole (atomOf .squote (terminatedList l₁)) := by
    have hsealed : Sealed (atomOf .squote (terminatedList l₁)) :=
      sealed_terminated htoken.room htoken.cursor hn₁ (Nat.le_refl _) (Nat.le_succ _)
    exact hsealed.whole
  have hgap : Gap .s1 ((T ++ [atomOf .squote (terminatedList l₁)]) :: Ls)
      ({ emitted env .squote (terminatedList l₁) with stack := s } : Locals).toRegs := by
    have hroom : ∀ l' : Regs, l'.val = env.fresh env.params.startSize →
        l'.valAllocated = env.params.startSize → l'.valUsed = 0 → Room l' := fun l' => Room.fresh
    have hdepth : l₁.depth = ((T ++ [atomOf .squote (terminatedList l₁)]) :: Ls).length := by
      rw [htoken.depth]
      simp
    exact ⟨⟨htoken.mode, hroom _ rfl rfl rfl, htoken.esc, hok, hdepth⟩, htoken.state, rfl,
      htoken.squoted, htoken.qdepth⟩
  have hrest₁ : Rest env l₁.t (c :: w) := by
    rw [ht₁]
    exact hrest.tail
  exact .step hround (settle_gained hc ⟨_, htree, hwhole, hgap⟩ hrest₁)

end Lists

section SingleQuotes

variable {env : Env} {l : Locals} {c d : Byte} {t u w text : List Byte} {T : List Sexp}
  {Ls L : List (List Sexp)}

lemma escapeText_plain (hd : dquote ∉ u) (hb : backslash ∉ u) : escapeText u = u := by
  induction u with
  | nil => rfl
  | cons c u ih =>
    obtain ⟨hcd, hd⟩ := not_or.mp (mt List.mem_cons.mpr hd)
    obtain ⟨hcb, hb⟩ := not_or.mp (mt List.mem_cons.mpr hb)
    rw [escapeText, if_neg (not_or.mpr ⟨Ne.symm hcd, Ne.symm hcb⟩), ih hd hb]

/-- The apostrophe. -/
lemma tick_open (hg : Gap .s1 L l.toRegs) (hrest : Rest env l.t (tick :: w)) :
    Gets env w (fun l' => Gap .s7 L l'.toRegs) l := by
  have hround : cparseHead env l = .ok { l with state := .s7, t := l.t + 1, vcur := l.vcur } := by
    rw [gap_head hg (by decide) hrest]
    rfl
  exact .step hround (.here hrest.tail hg.to)

lemma tick_head (hg : Gap .s7 L l.toRegs) (hc : c ≠ nul) (hrest : Rest env l.t (c :: w)) :
    cparseHead env l = state7 env c l := by
  have hs := hg.state
  rw [head_of_rest hrest hc (by simp [hs]), switch, hs]

/-- A single-quoted atom. -/
lemma squote_run (h : env.Succeeds) (hg : Gap .s1 (T :: Ls) l.toRegs)
    (hread : ReadableAtom .squote text) (hc : Separates c)
    (hrest : Rest env l.t (tick :: text ++ c :: w)) :
    Gets env (behind c w) (Gained (.atom .squote text) (stateBehind c) T Ls) l := by
  obtain ⟨hquoted, hb, hn⟩ := hread
  rw [List.cons_append] at hrest
  refine (tick_open hg hrest).trans ?_
  intro l hrest hg
  have hs := hg.state
  cases hquoted with
  | bare text hatom =>
    obtain ⟨d, v, hd, hnul, hdq, hl⟩ : ∃ d v, text ++ c :: w = d :: v ∧ d ≠ nul ∧ d ≠ dquote ∧
        d ≠ lparen := by
      cases text with
      | nil => exact ⟨c, w, rfl, hc.plain.2.1, hc.plain.2.2.1, hc.plain.2.2.2.1⟩
      | cons d t =>
        have ha := hatom d List.mem_cons_self
        obtain ⟨-, hl, -, hdq, -⟩ := atomByte_plain ha
        exact ⟨d, _, rfl, ne_nul_of_atomByte ha, hdq, hl⟩
    have hround : cparseHead env l = .ok { l with vcur := 0, state := .s4, squoted := true } := by
      rw [tick_head hg hnul (hd ▸ hrest), state7, if_neg hdq, if_neg hl]
    have ht : Token .s4 true 0 [] (T :: Ls)
        ({ l with vcur := 0, state := .s4, squoted := true } : Locals).toRegs := hg.token
    have hbody := bare_bytes (u := text) (w := c :: w) (l := { l with
      vcur := 0, state := .s4, squoted := true }) h ht hatom hb hrest
    refine .step hround (hbody.trans ?_)
    intro m hahead hm
    exact bare_close h hm hn hc hahead
  | string u hu =>
    simp only [List.cons_append, List.mem_cons, List.mem_append, List.not_mem_nil, or_false,
      not_or] at hb hn
    have hbytes : dquote :: u ++ [dquote] ++ c :: w = dquote :: (escapeText u ++ dquote :: c :: w) := by
      rw [escapeText_plain hu hb.2.1]
      simp
    rw [hbytes] at hrest
    have ht₀ : Token .s5 l.squoted 0 [] (T :: Ls)
        ({ l with state := .s5, vcur := 0, t := l.t + 1 } : Locals).toRegs := hg.token
    obtain ⟨m, hstore, hmt, hm⟩ := ht₀.store (c := dquote) h
    have hround : cparseHead env l = .ok { m with squoted := true } := by
      rw [tick_head hg (by decide) hrest, state7, if_pos rfl, hstore, ok_bind]
    have ht : Token .s5 true 0 [dquote] (T :: Ls) ({ m with squoted := true } : Locals).toRegs :=
      ⟨⟨hm.mode, ⟨hm.room.cells, hm.room.free⟩, hm.esc, hm.stack, hm.depth⟩, hm.state, hm.cursor,
        hm.text, rfl, hm.qdepth⟩
    obtain ⟨d, v, hd, hnul⟩ := escaped_cons hn.2.1 (c :: w)
    have hrest' : Rest env m.t (d :: v) := by
      rw [hmt, ← hd]
      exact hrest.tail
    obtain ⟨l', hrun, hgets⟩ := string_bytes h ht (by decide) hn.2.1 hc hd hrest'
    exact .step hround (.step ((string_head ht hnul hrest').trans hrun) hgets)
  | list u hu =>
    simp only [List.cons_append, List.mem_cons, List.mem_append, List.not_mem_nil, or_false,
      not_or] at hb hn
    have hbytes : lparen :: u ++ [rparen] ++ c :: w = lparen :: (u ++ rparen :: c :: w) := by simp
    rw [hbytes] at hrest
    have hround : cparseHead env l = .ok { l with vcur := 0, state := .s8 } := by
      rw [tick_head hg (by decide) hrest]
      rfl
    have ht : Token .s8 false 0 [] (T :: Ls) ({ l with vcur := 0, state := .s8 } : Locals).toRegs := by
      rw [← hg.squoted]
      exact hg.token
    have hopen := list_byte (c := lparen) (l := { l with vcur := 0, state := .s8 }) h ht (by decide)
      (by decide) rfl (by simp) hrest
    refine .step hround (hopen.trans ?_)
    intro m hahead hm
    refine (list_balanced h hu hm (by decide) hb.2.1 hn.2.1 hahead).trans ?_
    intro m hahead hm
    have hnu : nul ∉ [] ++ [lparen] ++ u := by
      rw [List.nil_append, List.singleton_append, List.mem_cons]
      exact not_or.mpr ⟨by decide, hn.2.1⟩
    exact list_close h hm hnu hc hahead

end SingleQuotes

end Sfsexp.Proofs
