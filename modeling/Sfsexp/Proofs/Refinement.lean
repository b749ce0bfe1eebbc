import Sfsexp.Proofs.AtomBuffer
import Sfsexp.Proofs.Tokens
import Sfsexp.Spec.Reader

/-!
# `cparse_sexp` refines the reader

At every loop head the locals denote a state of the reader. A round either leaves the byte at the
cursor for a later one and changes the state in a way the byte does not tell, or it does what the
reader does with that byte.
-/

namespace Sfsexp.Proofs

open Sfsexp Spec Reader

/-- What the reader is in the middle of, in each state of the parser. -/
def lexOf : State → Lex
  | .s4 => .bare
  | .s5 => .quoted
  | .s7 => .tick
  | .s8 => .quotedList
  | .s10 => .quotedString
  | .s11 => .comment
  | _ => .gap

/-- In state 2 a further list is open whose element is not on the stack yet. -/
def announced (s : State) : List (List Tree) := if s = .s2 then [[]] else []

/-- The reader's state that the locals denote while lists with the children `L` are open. -/
def view (l : Regs) (L : List (List Sexp)) : Reader :=
  { lex := lexOf l.state, squoted := l.squoted, esc := l.esc, pair := false, qdepth := l.qdepth
    text := l.val.take l.valUsed, levels := announced l.state ++ L.map forest }

/-- The locals in text mode, with the stack of the open lists `L`. -/
structure Good (l : Regs) (L : List (List Sexp)) : Prop where
  buffer : BufferInv l
  mode : l.mode = .normal
  noNul : nul ∉ l.val.take l.valUsed
  plain : l.state = .s4 ∨ l.state = .s5 ∨ l.squoted = false
  unquoted : l.state = .s8 ∨ l.state = .s10 ∨ l.qdepth = 0
  stack : StackOk l.stack L
  depth : l.depth = L.length
  textual : l.state ≠ .s12 ∧ l.state ≠ .s13 ∧ l.state ≠ .s14 ∧ l.state ≠ .s15
  sealed : SealedLevels L

structure GoodHead (l : Locals) (L : List (List Sexp)) : Prop where
  good : Good l.toRegs L
  fresh : L = [] → l.elts = 0

/-- What a round does with the byte `c` at the cursor when it stays in the loop. -/
inductive Follows (c : Byte) (l : Locals) (r : Reader) (l' : Locals) (r' : Reader) : Prop where
  | defer (ht : l'.t = l.t) (hfeed : r.feed c = r'.feed c) (h3 : l'.state = .s3 → c = rparen)
  | take (ht : l'.t = l.t + 1) (hfeed : r.feed c = ([], .ok r')) (h3 : l'.state ≠ .s3)

/-- A continuation between two top-level expressions. -/
structure Idle (cc : Pcont) : Prop where
  good : Good cc.toRegs []
  state : cc.state = .s1
  start : view cc.toRegs [] = Reader.start

/-- A return with the tree of `x`, after `d` bytes. -/
structure TreeReturn (x : Sexp) (cursor : Nat) (r : Return) : Prop where
  tree : r.cc.lastSexp = [x]
  error : r.cc.error = .ok
  errno : r.errno = .ok
  lastPos : r.cc.lastPos = some cursor
  cursor : r.cursor = cursor
  idle : Idle r.cc
  sealed : Sealed x

structure BadReturn (r : Return) : Prop where
  tree : r.cc.lastSexp = []
  error : r.cc.error = .badForm
  errno : r.errno = .badForm
  idle : Idle r.cc

/-- What a round does with the byte `c` at the cursor when it returns. -/
inductive Yields (c : Byte) (l : Locals) (r : Reader) (R : Return) : Prop where
  | take (x : Sexp) (hr : TreeReturn x (l.t + 1) R)
      (hfeed : r.feed c = ([x.tree], .ok Reader.start)) (hc : isWhite c = false)
  | defer (x : Sexp) (hr : TreeReturn x l.t R)
      (hfeed : r.feed c = (x.tree :: (Reader.start.feed c).1, (Reader.start.feed c).2))
  | bad (hr : BadReturn R) (hfeed : r.feed c = ([], .error .badForm)) (hcursor : R.cursor = l.t)
      (hc : c = rparen)

/-- A round that does with the byte `c` what the reader does with it. -/
abbrev Reads (c : Byte) (l : Locals) (r : Reader) : Exec Locals → Prop :=
  Post (fun l' => ∃ L', GoodHead l' L' ∧ Follows c l r l' (view l'.toRegs L')) (Yields c l r)
    (fun f => f = .atomBuffer ∧ r.feed c = ([], .error .stray))

section Round

variable {env : Env} {l : Locals} {c : Byte} {L : List (List Sexp)}

/-- Between tokens the view shows nothing but the escape flag and the open lists. -/
lemma Good.view_gap (hi : Good l.toRegs L)
    (hs : l.state = .s1 ∨ l.state = .s3 ∨ l.state = .s6) :
    view l.toRegs L = ⟨.gap, false, l.esc, false, 0, [], L.map forest⟩ := by
  have hu : l.valUsed = 0 := by
    have ht := hi.buffer.token
    rcases hs with hs | hs | hs <;> simpa [TokenInv, hs] using ht
  have hsq : l.squoted = false := by
    rcases hs with hs | hs | hs <;> simpa [hs] using hi.plain
  have hq : l.qdepth = 0 := by
    rcases hs with hs | hs | hs <;> simpa [hs] using hi.unquoted
  rcases hs with hs | hs | hs <;> simp [view, hs, lexOf, hsq, hq, hu, announced]

/-- The locals between tokens, after changes that do not touch the buffer or the stack. -/
lemma Good.between (hi : Good l.toRegs L) (hu : l.valUsed = 0) (hq : l.qdepth = 0)
    {l' : Regs} (h : SameBuffer l.toRegs l') (hmode : l'.mode = l.mode)
    (hstack : l'.stack = l.stack) (hdepth : l'.depth = l.depth) (hsq : l'.squoted = false)
    (hqd : l'.qdepth = l.qdepth)
    (hs : l'.state = .s1 ∨ l'.state = .s2 ∨ l'.state = .s3 ∨ l'.state = .s6 ∨ l'.state = .s11) :
    Good l' L := by
  refine ⟨.between hi.buffer.room hu h hs, hmode.trans hi.mode, ?_, .inr (.inr hsq),
    .inr (.inr (hqd.trans hq)), ?_, ?_, ?_, hi.sealed⟩
  · rw [h.2.2, hu]
    simp
  · rw [hstack]
    exact hi.stack
  · rw [hdepth]
    exact hi.depth
  · rcases hs with hs | hs | hs | hs | hs <;> simp [hs]

lemma Good.quiet_gap (hi : Good l.toRegs L) (hs : l.state = .s1) :
    l.valUsed = 0 ∧ l.qdepth = 0 ∧ l.squoted = false := by
  refine ⟨?_, ?_, ?_⟩
  · simpa [TokenInv, hs] using hi.buffer.token
  · simpa [hs] using hi.unquoted
  · simpa [hs] using hi.plain

/-- A token starts: the buffer is empty and the cursor of the buffer stands at its start. -/
lemma Good.opened (hi : Good l.toRegs L) (hu : l.valUsed = 0) (hq : l.qdepth = 0)
    {l' : Regs} (h : SameBuffer l.toRegs l') (hmode : l'.mode = l.mode)
    (hstack : l'.stack = l.stack) (hdepth : l'.depth = l.depth) (hqd : l'.qdepth = l.qdepth)
    (hv : l'.state = .s7 ∨ l'.vcur = 0)
    (hs : l'.state = .s4 ∨ l'.state = .s5 ∨ (l'.squoted = false ∧ (l'.state = .s7 ∨ l'.state = .s8))) :
    Good l' L := by
  have hu' : l'.valUsed = 0 := h.2.2.trans hu
  refine ⟨⟨hi.buffer.room.same h, ?_⟩, hmode.trans hi.mode, ?_, ?_, .inr (.inr (hqd.trans hq)),
    ?_, ?_, ?_, hi.sealed⟩
  · rcases hs with hs | hs | ⟨-, hs | hs⟩
    · simpa [TokenInv, hs, hu'] using hv
    · simpa [TokenInv, hs, hu'] using hv
    · simp [TokenInv, hs, hu']
    · simpa [TokenInv, hs, hu'] using hv
  · rw [hu']
    simp
  · rcases hs with hs | hs | ⟨hsq, -⟩
    · exact .inl hs
    · exact .inr (.inl hs)
    · exact .inr (.inr hsq)
  · rw [hstack]
    exact hi.stack
  · rw [hdepth]
    exact hi.depth
  · rcases hs with hs | hs | ⟨-, hs | hs⟩ <;> simp [hs]

lemma reads_state1 (h : env.Succeeds) (hc : c ≠ nul) (hi : GoodHead l L) (hs : l.state = .s1) :
    Reads c l (view l.toRegs L) (state1 env c l) := by
  obtain ⟨hu, hq, hsq⟩ := hi.good.quiet_gap hs
  have hview := hi.good.view_gap (.inl hs)
  have hfeed : (view l.toRegs L).feed c =
      feedGap ⟨.gap, false, l.esc, false, 0, [], L.map forest⟩ c := by
    rw [hview]
    rfl
  rw [state1]
  split_ifs with h1 h2 h3 h4 h5 h6
  · refine ⟨L, ⟨hi.good.between hu hq ⟨rfl, rfl, rfl⟩ rfl rfl rfl hsq rfl (.inl hs), hi.fresh⟩,
      .take rfl ?_ (by simp [hs])⟩
    rw [hfeed, feedGap, if_pos h1, ← hview]
  · refine ⟨L, ⟨hi.good.between hu hq ⟨rfl, rfl, rfl⟩ rfl rfl rfl hsq rfl (by simp), hi.fresh⟩,
      .take rfl ?_ (by simp)⟩
    rw [hfeed, feedGap, if_neg h1, if_pos h2]
    simp [view, lexOf, announced, hsq, hu, hq]
  · rw [fire_eq]
    refine ⟨L, ⟨hi.good.between hu hq ⟨rfl, rfl, rfl⟩ rfl rfl rfl hsq rfl (by simp), hi.fresh⟩,
      .take rfl ?_ (by simp)⟩
    rw [hfeed, feedGap, if_neg h1, if_neg h2, if_pos h3]
    simp [view, lexOf, announced, hsq, hu, hq]
  · refine ⟨L, ⟨hi.good.between hu hq ⟨rfl, rfl, rfl⟩ rfl rfl rfl hsq rfl (by simp), hi.fresh⟩,
      .defer rfl ?_ fun _ => h4⟩
    rw [hview]
    simp [view, lexOf, announced, hsq, hu, hq]
  · refine ⟨L, ⟨hi.good.opened hu hq ⟨rfl, rfl, rfl⟩ rfl rfl rfl rfl (.inr rfl) (by simp), hi.fresh⟩,
      .take rfl ?_ (by simp)⟩
    rw [hfeed, feedGap, if_neg h1, if_neg h2, if_neg h3, if_neg h4, if_pos h5]
    simp [view, lexOf, announced, hsq, hu, hq]
  · refine ⟨L, ⟨hi.good.opened hu hq ⟨rfl, rfl, rfl⟩ rfl rfl rfl rfl (.inl rfl) (by simp [hsq]),
      hi.fresh⟩, .take rfl ?_ (by simp)⟩
    rw [hfeed, feedGap, if_neg h1, if_neg h2, if_neg h3, if_neg h4, if_neg h5, if_pos h6]
    simp [view, lexOf, announced, hsq, hu, hq]
  · obtain ⟨v, a, k, hg, happ⟩ := head_ok h hi.good.buffer.room hu c
    have htext : v.take 1 = [c] := by simpa [hu] using happ.text
    have hmode : ¬ (c = hash ∧ l.mode = .inlineBinary) := by simp [hi.good.mode]
    rw [← bind_assoc, hg, ok_bind, if_neg hmode]
    refine ⟨L, ⟨⟨⟨.of_appended happ rfl rfl (by simp [hu]), by simp [TokenInv]⟩, hi.good.mode, ?_,
      .inl rfl, .inr (.inr hq), hi.good.stack, hi.good.depth, by simp,
        hi.good.sealed⟩, hi.fresh⟩, .take rfl ?_ (by simp)⟩
    · rw [htext]
      simpa using Ne.symm hc
    · rw [hfeed, feedGap, if_neg h1, if_neg h2, if_neg h3, if_neg h4, if_neg h5, if_neg h6]
      simp [view, lexOf, announced, hsq, hq, htext, Reader.push]

lemma reads_state2 (h : env.Succeeds) (hi : GoodHead l L) (hs : l.state = .s2) :
    Reads c l (view l.toRegs L) (state2 env l) := by
  have hu : l.valUsed = 0 := by simpa [TokenInv, hs] using hi.good.buffer.token
  have hq : l.qdepth = 0 := by simpa [hs] using hi.good.unquoted
  have hsq : l.squoted = false := by simpa [hs] using hi.good.plain
  obtain ⟨s, k, hrun, hok⟩ := state2_ok h hi.good.stack
  rw [hrun]
  refine ⟨[] :: L, ⟨⟨.between hi.good.buffer.room hu ⟨rfl, rfl, rfl⟩ (by simp), hi.good.mode,
    hi.good.noNul, .inr (.inr hsq), .inr (.inr hq), hok, ?_, by simp, sealedLevels_open hi.good.sealed⟩,
    by simp⟩, .defer rfl ?_ (by simp)⟩
  · simp [hi.good.depth]
  · congr 1
    simp [view, hs, lexOf, announced, forest]

lemma reads_state3 (hc : c = rparen) (hi : GoodHead l L) (hs : l.state = .s3) :
    Reads c l (view l.toRegs L) (state3 l) := by
  have hu : l.valUsed = 0 := by simpa [TokenInv, hs] using hi.good.buffer.token
  have hq : l.qdepth = 0 := by simpa [hs] using hi.good.unquoted
  have hsq : l.squoted = false := by simpa [hs] using hi.good.plain
  have hd := hi.good.depth
  have hfeed : (view l.toRegs L).feed c =
      feedGap ⟨.gap, false, l.esc, false, 0, [], L.map forest⟩ rparen := by
    rw [hi.good.view_gap (.inr (.inl hs)), hc]
    rfl
  cases L with
  | nil =>
    rw [state3_bad hd]
    refine .bad ⟨rfl, rfl, rfl, ?_, rfl, ?_⟩ (by rw [hfeed]; rfl) rfl hc
    · exact hi.good.between hu hq ⟨rfl, rfl, rfl⟩ rfl rfl rfl hsq rfl (.inl rfl)
    · simp [view, lexOf, announced, Reader.start, hsq, hq, hu]
  | cons T Ls =>
    cases Ls with
    | nil =>
      obtain ⟨s, hrun, hok⟩ := state3_outer hi.good.stack hd
      rw [hrun]
      refine .take (.list T) ⟨rfl, rfl, rfl, rfl, rfl, ⟨?_, rfl, ?_⟩, hi.good.sealed T (by simp)⟩
        (by rw [hfeed]; rfl) (by rw [hc]; decide)
      · exact ⟨.between hi.good.buffer.room hu ⟨rfl, rfl, rfl⟩ (.inl rfl), hi.good.mode,
          hi.good.noNul, .inr (.inr hsq), .inr (.inr hq), hok, rfl, by simp,
          sealedLevels_nil⟩
      · simp [view, lexOf, announced, Reader.start, hsq, hq, hu]
    | cons T' Ls =>
      obtain ⟨s, hrun, hok⟩ := state3_inner hi.good.stack hd
      rw [hrun]
      refine ⟨_, ⟨⟨.between hi.good.buffer.room hu ⟨rfl, rfl, rfl⟩ (.inl rfl), hi.good.mode,
        hi.good.noNul, .inr (.inr hsq), .inr (.inr hq), hok, rfl, by simp,
        sealedLevels_close hi.good.sealed⟩, by simp⟩, .take rfl ?_ (by simp)⟩
      have hclose : feedGap ⟨.gap, false, l.esc, false, 0, [], (T :: T' :: Ls).map forest⟩ rparen =
          ([], .ok ⟨.gap, false, l.esc, false, 0, [],
            (forest T' ++ [.list (forest T)]) :: Ls.map forest⟩) := rfl
      rw [hfeed, hclose]
      simp [view, lexOf, announced, hsq, hq, hu, forest, Sexp.tree]

lemma noNul_append {text text' : List Byte} (h : nul ∉ text) (hc : c ≠ nul)
    (ht : text' = text ++ [c]) : nul ∉ text' := by
  rw [ht, List.mem_append, List.mem_singleton]
  rintro (hin | heq)
  · exact h hin
  · exact hc heq.symm

/-- The escape code finds no byte to replace, or replaces the last one. -/
lemma overwrite_cases (hr : Room l.toRegs) (hv : l.vcur = l.valUsed) :
    (l.val.take l.valUsed = [] ∧ overwrite c l = .error (.fault .atomBuffer)) ∨
      ∃ v, overwrite c l = .ok { l with val := v, t := l.t + 1, esc := false } ∧
        v.length = l.valAllocated ∧ l.val.take l.valUsed ≠ [] ∧
        v.take l.valUsed = (l.val.take l.valUsed).dropLast ++ [c] := by
  rcases Nat.eq_zero_or_pos l.valUsed with hu | hpos
  · exact .inl ⟨by rw [hu, List.take_zero], overwrite_start (hv.trans hu)⟩
  · obtain ⟨n, hn⟩ := Nat.exists_eq_add_one.mpr hpos
    have hlt : n < l.val.length := by
      rw [hr.cells]
      have := hr.free
      omega
    refine .inr ⟨l.val.set n c, overwrite_ok (hv.trans hn) hlt, ?_, ?_, ?_⟩
    · simpa using hr.cells
    · intro hnil
      have hlen : (l.val.take (n + 1)).length = n + 1 := by
        rw [List.length_take]
        omega
      rw [hn] at hnil
      rw [hnil] at hlen
      simp at hlen
    · rw [hn]
      exact Cells.take_succ_set_last hlt c

lemma escape_nil {r : Reader} (h : r.text = []) : r.escape c = ([], .error .stray) := by
  rw [Reader.escape, h]

lemma escape_ne_nil {r : Reader} (h : r.text ≠ []) :
    r.escape c = ([], .ok { r with text := r.text.dropLast ++ [c], esc := false }) := by
  unfold Reader.escape
  split
  · exact absurd ‹_› h
  · rfl

lemma mem_of_mem_dropLast_concat {text : List Byte} (h : nul ∉ text) (hc : c ≠ nul) :
    nul ∉ text.dropLast ++ [c] := by
  rw [List.mem_append, List.mem_singleton]
  rintro (hin | heq)
  · exact h (List.dropLast_subset _ hin)
  · exact hc heq.symm

/-- The text that the terminator ends. -/
lemma cstr_terminated (hr : Room l.toRegs) (hv : l.vcur = l.valUsed)
    (hn : nul ∉ l.val.take l.valUsed) :
    cstr (l.val.set l.vcur nul) = l.val.take l.valUsed := by
  have hlt : l.valUsed < l.val.length := by
    rw [hr.cells]
    exact hr.free
  rw [hv]
  exact Cells.takeWhile_set hlt hn

lemma sealed_terminated {aty : AtomT} (hr : Room l.toRegs) (hv : l.vcur = l.valUsed)
    (hn : nul ∉ l.val.take l.valUsed) {used : Nat} (hused : l.valUsed ≤ used)
    (hmost : used ≤ l.valUsed + 1) :
    Sealed (.value aty (l.val.set l.vcur nul) l.valAllocated used) := by
  have hfree := hr.free
  have hlen : (cstr (l.val.set l.vcur nul)).length = l.valUsed := by
    rw [cstr_terminated hr hv hn, List.length_take, hr.cells]
    omega
  refine ⟨by simpa using hr.cells, by omega, ?_, ?_⟩
  · rw [hlen]
    exact hfree
  · rw [hlen]
    exact hused

/-- The locals after a token inside a list. -/
lemma Good.closed {T : List Sexp} {Ls : List (List Sexp)} {x : Sexp} (hi : Good l.toRegs (T :: Ls))
    (hx : Sealed x) (hq : l.qdepth = 0) {l' : Regs} (hr : Room l') (hu : l'.valUsed = 0)
    (hmode : l'.mode = l.mode) (hok : StackOk l'.stack ((T ++ [x]) :: Ls))
    (hdepth : l'.depth = l.depth) (hsq : l'.squoted = false) (hqd : l'.qdepth = l.qdepth)
    (hs : l'.state = .s1 ∨ l'.state = .s3 ∨ l'.state = .s6) : Good l' ((T ++ [x]) :: Ls) := by
  refine ⟨⟨hr, ?_⟩, hmode.trans hi.mode, ?_, .inr (.inr hsq), .inr (.inr (hqd.trans hq)), hok, ?_, ?_,
    sealedLevels_concat hi.sealed hx⟩
  · rcases hs with hs | hs | hs <;> simp [TokenInv, hs, hu]
  · rw [hu]
    simp
  · rw [hdepth, hi.depth]
    simp
  · rcases hs with hs | hs | hs <;> simp [hs]

/-- The continuation after a token at the top level. -/
lemma idle_of_token (hi : Good l.toRegs []) (hq : l.qdepth = 0) {cc : Pcont} (hr : Room cc.toRegs)
    (hu : cc.valUsed = 0) (hmode : cc.mode = l.mode) (hstack : cc.stack = l.stack)
    (hdepth : cc.depth = l.depth) (hsq : cc.squoted = false) (hqd : cc.qdepth = l.qdepth)
    (hesc : cc.esc = false) (hs : cc.state = .s1) : Idle cc := by
  refine ⟨⟨⟨hr, ?_⟩, hmode.trans hi.mode, ?_, .inr (.inr hsq), .inr (.inr (hqd.trans hq)), ?_, ?_,
    by simp [hs], sealedLevels_nil⟩, hs, ?_⟩
  · simp [TokenInv, hs, hu]
  · rw [hu]
    simp
  · rw [hstack]
    exact hi.stack
  · rw [hdepth]
    exact hi.depth
  · simp [view, hs, lexOf, announced, hsq, hqd, hq, hu, hesc, Reader.start]

/-- The byte after a bare atom is read again once the atom is finished. -/
lemma feedBare_ends {r r' : Reader} {out : List Tree} (hesc : (r.esc && isEscapable c) = false)
    (hatom : isAtomByte c = false)
    (hfin : r.finishAtom (if r.squoted then .squote else .basic) = (out, .ok r')) :
    r.feedBare c = (out ++ (r'.feedGap c).1, (r'.feedGap c).2) := by
  rw [feedBare, hesc, hatom, if_neg Bool.false_ne_true, if_neg Bool.false_ne_true, hfin]

lemma reads_endBare (h : env.Succeeds) (hi : GoodHead l L) (hs : l.state = .s4)
    (hesc : (l.esc && isEscapable c) = false) (hc : isAtomByte c = false) :
    Reads c l (view l.toRegs L) (endBare env c l) := by
  obtain ⟨hv, -⟩ := hi.good.buffer.cursor (by simp [hs, accumulates])
  have hr := hi.good.buffer.room
  have hq : l.qdepth = 0 := by simpa [hs] using hi.good.unquoted
  have hlt : l.vcur < l.val.length := by rw [hv, hr.cells]; exact hr.free
  have htree : (atomOf (bareType l) (terminated l)).tree =
      .atom (bareType l) (l.val.take l.valUsed) := by
    rw [atomOf, Sexp.tree, terminated, cstr_terminated hr hv hi.good.noNul]
  have hsealed : Sealed (atomOf (bareType l) (terminated l)) :=
    sealed_terminated hr hv hi.good.noNul (Nat.le_succ _) (Nat.le_refl _)
  have hfeed : ∀ {out r'}, (view l.toRegs L).finishAtom (bareType l) = (out, .ok r') →
      (view l.toRegs L).feed c = (out ++ (r'.feedGap c).1, (r'.feedGap c).2) := by
    intro out r' hfin
    have hlex : (view l.toRegs L).feed c = (view l.toRegs L).feedBare c := by
      simp [Reader.feed, feedLex, view, hs, lexOf]
    rw [hlex]
    exact feedBare_ends hesc hc hfin
  cases L with
  | nil =>
    rw [endBare_top h hlt hi.good.stack]
    refine .defer _ ⟨rfl, rfl, rfl, rfl, rfl, ?_, hsealed⟩ ?_
    · exact idle_of_token hi.good hq (.fresh rfl rfl rfl) rfl rfl rfl rfl rfl rfl rfl rfl
    · have hfinish : (view l.toRegs []).finishAtom (bareType l) =
          ([.atom (bareType l) (l.val.take l.valUsed)], .ok Reader.start) := by
        simp [Reader.finishAtom, view, announced, hs]
      rw [hfeed hfinish, htree]
      simp [Reader.feed, feedLex, Reader.start]
  | cons T Ls =>
    obtain ⟨s, hrun, hok⟩ := endBare_open h hlt hi.good.stack
    rw [hrun]
    have hfinish : (view l.toRegs (T :: Ls)).finishAtom (bareType l) =
        ([], .ok ⟨.gap, false, l.esc, false, 0, [],
          (forest T ++ [.atom (bareType l) (l.val.take l.valUsed)]) :: Ls.map forest⟩) := by
      simp [Reader.finishAtom, view, announced, hs, hq]
    have hfeed := hfeed hfinish
    generalize hl₁ : ({ emitted env (bareType l) (terminated l) with stack := s } : Locals) = l₁
    have hr₁ : Room l₁.toRegs := by
      rw [← hl₁]
      exact .fresh rfl rfl rfl
    have hsame : l₁.valUsed = 0 ∧ l₁.mode = l.mode ∧ l₁.stack = s ∧ l₁.depth = l.depth ∧
        l₁.qdepth = l.qdepth ∧ l₁.esc = l.esc ∧ l₁.t = l.t := by
      rw [← hl₁]
      exact ⟨rfl, rfl, rfl, rfl, rfl, rfl, rfl⟩
    obtain ⟨hu₁, hmode₁, hstack₁, hdepth₁, hqd₁, hesc₁, ht₁⟩ := hsame
    have hgood : ∀ l' : Regs, SameBuffer l₁.toRegs l' → l'.mode = l₁.mode →
        l'.stack = l₁.stack → l'.depth = l₁.depth → l'.squoted = false → l'.qdepth = l₁.qdepth →
        l'.state = .s1 ∨ l'.state = .s3 →
        Good l' ((T ++ [atomOf (bareType l) (terminated l)]) :: Ls) := by
      intro l' hb hmode hstack hdepth hsq hqd hs'
      refine hi.good.closed hsealed hq (hr₁.same hb) (hb.2.2.trans hu₁) (hmode.trans hmode₁) ?_
        (hdepth.trans hdepth₁) hsq (hqd.trans hqd₁) (by simpa using hs'.imp_right .inl)
      rwa [hstack, hstack₁]
    rw [afterBare]
    split_ifs with hw hp
    · refine ⟨_, ⟨hgood _ ⟨rfl, rfl, rfl⟩ rfl rfl rfl rfl rfl (.inl rfl), by simp⟩,
        .take (by simp [ht₁]) ?_ (by simp)⟩
      rw [hfeed]
      simp [feedGap, hw, view, lexOf, announced, hesc₁, hqd₁, hq, hu₁, forest, htree]
    · refine ⟨_, ⟨hgood _ ⟨rfl, rfl, rfl⟩ rfl rfl rfl rfl rfl (.inr rfl), by simp⟩,
        .defer ht₁ ?_ fun _ => hp⟩
      rw [hfeed]
      simp [Reader.feed, feedLex, view, lexOf, announced, hesc₁, hqd₁, hq, hu₁, forest, htree]
    · refine ⟨_, ⟨hgood _ ⟨rfl, rfl, rfl⟩ rfl rfl rfl rfl rfl (.inl rfl), by simp⟩,
        .defer ht₁ ?_ (by simp)⟩
      rw [hfeed]
      simp [Reader.feed, feedLex, view, lexOf, announced, hesc₁, hqd₁, hq, hu₁, forest, htree]

lemma reads_state4 (h : env.Succeeds) (hc : c ≠ nul) (hi : GoodHead l L) (hs : l.state = .s4) :
    Reads c l (view l.toRegs L) (state4 env c l) := by
  obtain ⟨hv, -⟩ := hi.good.buffer.cursor (by simp [hs, accumulates])
  have hr := hi.good.buffer.room
  have hq : l.qdepth = 0 := by simpa [hs] using hi.good.unquoted
  have hlex : (view l.toRegs L).feed c = (view l.toRegs L).feedBare c := by
    simp [Reader.feed, feedLex, view, hs, lexOf]
  rw [state4]
  by_cases he : (l.esc && isEscapable c) = true
  · have hfeed : (view l.toRegs L).feed c = (view l.toRegs L).escape c := by
      have he' : ((view l.toRegs L).esc && isEscapable c) = true := he
      rw [hlex, feedBare, if_pos he']
    rw [if_pos he]
    rcases @overwrite_cases l c hr hv with ⟨hnil, hrun⟩ | ⟨v, hrun, hlen, hne, htext⟩
    · rw [hrun]
      exact ⟨rfl, hfeed.trans (escape_nil hnil)⟩
    · rw [hrun]
      refine ⟨L, ⟨⟨⟨⟨hlen, hr.free⟩, by simp [TokenInv, hs, hv]⟩, hi.good.mode, ?_, .inl hs,
        .inr (.inr hq), hi.good.stack, hi.good.depth, hi.good.textual, hi.good.sealed⟩, hi.fresh⟩,
        .take rfl ?_ (by simp [hs])⟩
      · dsimp only
        rw [htext]
        exact mem_of_mem_dropLast_concat hi.good.noNul hc
      · rw [hfeed, escape_ne_nil hne]
        simp [view, hs, htext]
  · rw [if_neg he]
    rw [Bool.not_eq_true] at he
    by_cases ha : isAtomByte c = true
    · obtain ⟨v, a, k, hg, happ⟩ := storeEsc_ok h hr hv c
      rw [if_pos ha, hg, ok_bind]
      refine ⟨L, ⟨⟨⟨.of_appended happ rfl rfl rfl, by simp [TokenInv, hs]⟩, hi.good.mode,
        noNul_append hi.good.noNul hc happ.text, .inl hs, .inr (.inr hq), hi.good.stack,
        hi.good.depth, hi.good.textual, hi.good.sealed⟩, hi.fresh⟩, .take rfl ?_ (by simp [hs])⟩
      have he' : ((view l.toRegs L).esc && isEscapable c) = false := he
      rw [hlex, feedBare, he', ha]
      simp [view, hs, Reader.push, happ.text]
    · rw [if_neg ha]
      rw [Bool.not_eq_true] at ha
      exact reads_endBare h hi hs he ha

lemma closingQuote_ok (h : env.Succeeds) (hr : Room l.toRegs) (hv : l.vcur = l.valUsed) :
    ∃ v a u k, closingQuote env l =
        .ok { l with val := v, valAllocated := a, valUsed := u, vcur := u, allocs := k } ∧
      v.length = a ∧ u < a ∧
      v.take u = if l.squoted then l.val.take l.valUsed ++ [dquote] else l.val.take l.valUsed := by
  rw [closingQuote]
  by_cases hsq : l.squoted = true
  · obtain ⟨v, a, k, hg, happ⟩ := store_ok h hr hv dquote
    rw [if_pos hsq, if_pos hsq]
    exact ⟨v, a, _, k, hg, happ.cells, happ.free, happ.text⟩
  · rw [if_neg hsq, if_neg hsq]
    refine ⟨l.val, l.valAllocated, l.valUsed, l.allocs, ?_, hr.cells, hr.free, rfl⟩
    exact congrArg (fun n => Except.ok { l with vcur := n }) hv

lemma noNul_closingQuote {text text' : List Byte} {squoted : Bool} (h : nul ∉ text)
    (ht : text' = if squoted then text ++ [dquote] else text) : nul ∉ text' := by
  cases squoted with
  | false => rwa [ht]
  | true => exact noNul_append h (by decide) ht

lemma reads_endQuoted (h : env.Succeeds) (hi : GoodHead l L) (hs : l.state = .s5)
    (hesc : (l.esc && isEscapable dquote) = false) :
    Reads dquote l (view l.toRegs L) (endQuoted env { l with state := .s6 }) := by
  obtain ⟨hv, -⟩ := hi.good.buffer.cursor (by simp [hs, accumulates])
  have hq : l.qdepth = 0 := by simpa [hs] using hi.good.unquoted
  obtain ⟨v, a, u, k, hclose, hlen, hfree, htext⟩ := closingQuote_ok h
    (l := { l with state := .s6 }) (hi.good.buffer.room.same ⟨rfl, rfl, rfl⟩) hv
  generalize hl₁ : ({ l with state := .s6, val := v, valAllocated := a, valUsed := u, vcur := u
                             allocs := k } : Locals) = l₁ at hclose
  have hsame : l₁.mode = l.mode ∧ l₁.stack = l.stack ∧ l₁.depth = l.depth ∧
      l₁.qdepth = l.qdepth ∧ l₁.esc = l.esc ∧ l₁.t = l.t ∧ l₁.squoted = l.squoted ∧
      l₁.state = .s6 := by
    rw [← hl₁]
    exact ⟨rfl, rfl, rfl, rfl, rfl, rfl, rfl, rfl⟩
  obtain ⟨hmode₁, hstack₁, hdepth₁, hqd₁, hesc₁, ht₁, hsq₁, hs₁⟩ := hsame
  have hr₁ : Room l₁.toRegs := by
    rw [← hl₁]
    exact ⟨hlen, hfree⟩
  have hv₁ : l₁.vcur = l₁.valUsed := by rw [← hl₁]
  have htext₁ : l₁.val.take l₁.valUsed =
      if l.squoted then l.val.take l.valUsed ++ [dquote] else l.val.take l.valUsed := by
    rw [← hl₁]
    exact htext
  have hlt : l₁.vcur < l₁.val.length := by rw [hv₁, hr₁.cells]; exact hr₁.free
  have hn₁ : nul ∉ l₁.val.take l₁.valUsed := noNul_closingQuote hi.good.noNul htext₁
  have htree : (atomOf (quotedType l₁) (terminated l₁)).tree =
      .atom (quotedType l₁) (l₁.val.take l₁.valUsed) := by
    rw [atomOf, Sexp.tree, terminated, cstr_terminated hr₁ hv₁ hn₁]
  have hsealed : Sealed (atomOf (quotedType l₁) (terminated l₁)) :=
    sealed_terminated hr₁ hv₁ hn₁ (Nat.le_succ _) (Nat.le_refl _)
  have hfeed : (view l.toRegs L).feed dquote =
      { view l.toRegs L with text := l₁.val.take l₁.valUsed }.finishAtom (quotedType l₁) := by
    have hlex : (view l.toRegs L).feed dquote = (view l.toRegs L).feedQuoted dquote := by
      simp [Reader.feed, feedLex, view, hs, lexOf]
    have hesc' : ((view l.toRegs L).esc && isEscapable dquote) = false := hesc
    have hsq : (view l.toRegs L).squoted = l.squoted := rfl
    rw [hlex, feedQuoted, hesc', htext₁, quotedType, hsq₁, hsq]
    cases l.squoted <;> rfl
  cases L with
  | nil =>
    rw [endQuoted_top h hclose hlt (by rw [hstack₁]; exact hi.good.stack)]
    refine .take _ ⟨rfl, rfl, rfl, ?_, ?_, ?_, hsealed⟩ ?_ (by decide)
    · simp [ht₁]
    · simp [ht₁]
    · exact idle_of_token hi.good hq (.fresh rfl rfl rfl) rfl hmode₁ hstack₁ hdepth₁ rfl hqd₁ rfl
        rfl
    · rw [hfeed, htree]
      simp [Reader.finishAtom, view, announced, hs]
  | cons T Ls =>
    obtain ⟨s, hrun, hok⟩ := endQuoted_open h hclose hlt (by rw [hstack₁]; exact hi.good.stack)
    rw [hrun]
    refine ⟨_, ⟨hi.good.closed hsealed hq (.fresh rfl rfl rfl) rfl hmode₁ hok hdepth₁ rfl hqd₁
      (.inr (.inr hs₁)), by simp⟩, .take (by simp [ht₁]) ?_ ?_⟩
    · rw [hfeed]
      simp [Reader.finishAtom, view, announced, lexOf, emitted, hs, hs₁, hq, hqd₁, hesc₁, forest,
        htree]
    · simp [emitted, hs₁]

lemma reads_state5Rest (h : env.Succeeds) (hc : c ≠ nul) (hi : GoodHead l L) (hs : l.state = .s5)
    (hesc : (l.esc && isEscapable c) = false) :
    Reads c l (view l.toRegs L) (state5Rest env c l) := by
  obtain ⟨hv, -⟩ := hi.good.buffer.cursor (by simp [hs, accumulates])
  have hq : l.qdepth = 0 := by simpa [hs] using hi.good.unquoted
  rw [state5Rest]
  by_cases hd : c = dquote
  · subst hd
    rw [if_pos rfl]
    exact reads_endQuoted h hi hs hesc
  · obtain ⟨v, a, k, hg, happ⟩ := store_ok h hi.good.buffer.room hv c
    rw [if_neg hd, hg, ok_bind]
    refine ⟨L, ⟨⟨⟨.of_appended happ rfl rfl rfl, by simp [TokenInv, hs]⟩, hi.good.mode,
      noNul_append hi.good.noNul hc happ.text, .inr (.inl hs), .inr (.inr hq), hi.good.stack,
      hi.good.depth, hi.good.textual, hi.good.sealed⟩, hi.fresh⟩, .take rfl ?_ (by simp [hs])⟩
    have hlex : (view l.toRegs L).feed c = (view l.toRegs L).feedQuoted c := by
      simp [Reader.feed, feedLex, view, hs, lexOf]
    have hesc' : ((view l.toRegs L).esc && isEscapable c) = false := hesc
    rw [hlex, feedQuoted, hesc']
    simp [hd, view, hs, Reader.push, happ.text]

lemma reads_state7 (h : env.Succeeds) (hi : GoodHead l L) (hs : l.state = .s7) :
    Reads c l (view l.toRegs L) (state7 env c l) := by
  have hu : l.valUsed = 0 := by simpa [TokenInv, hs] using hi.good.buffer.token
  have hq : l.qdepth = 0 := by simpa [hs] using hi.good.unquoted
  have hsq : l.squoted = false := by simpa [hs] using hi.good.plain
  have hlex : (view l.toRegs L).feed c = (view l.toRegs L).feedTick c := by
    simp [Reader.feed, feedLex, view, hs, lexOf]
  rw [state7]
  split_ifs with h1 h2
  · obtain ⟨v, a, k, hg, happ⟩ := store_ok h
      (l := { l with state := .s5, vcur := 0, t := l.t + 1 })
      (hi.good.buffer.room.same ⟨rfl, rfl, rfl⟩) hu.symm dquote
    have htext : v.take 1 = [dquote] := by simpa [hu] using happ.text
    rw [hg, ok_bind]
    refine ⟨L, ⟨⟨⟨.of_appended happ rfl rfl rfl, by simp [TokenInv]⟩, hi.good.mode, ?_,
      .inr (.inl rfl), .inr (.inr hq), hi.good.stack, hi.good.depth, by simp,
        hi.good.sealed⟩, hi.fresh⟩,
      .take rfl ?_ (by simp)⟩
    · simp only [hu, Nat.zero_add, htext]
      decide
    · rw [hlex, feedTick, if_pos h1]
      simp [view, hs, lexOf, announced, hu, htext]
  · refine ⟨L, ⟨hi.good.opened hu hq ⟨rfl, rfl, rfl⟩ rfl rfl rfl rfl (.inr rfl) (by simp [hsq]),
      hi.fresh⟩, .defer rfl ?_ (by simp)⟩
    rw [hlex, feedTick, if_neg h1, if_pos h2]
    simp [Reader.feed, feedLex, view, hs, lexOf, announced]
  · refine ⟨L, ⟨hi.good.opened hu hq ⟨rfl, rfl, rfl⟩ rfl rfl rfl rfl (.inr rfl) (by simp),
      hi.fresh⟩, .defer rfl ?_ (by simp)⟩
    rw [hlex, feedTick, if_neg h1, if_neg h2]
    simp [Reader.feed, feedLex, view, hs, lexOf, announced]

/-- The locals inside a quoted list, after the byte `c` was stored and the depth was counted. -/
structure ListText (l : Locals) (L : List (List Sexp)) (l₁ : Locals) (c : Byte) : Prop where
  room : Room l₁.toRegs
  cursor : l₁.vcur = l₁.valUsed
  text : l₁.val.take l₁.valUsed = l.val.take l.valUsed ++ [c]
  esc : l₁.esc = (c == backslash)
  t : l₁.t = l.t + 1
  same : l₁.mode = l.mode ∧ l₁.stack = l.stack ∧ l₁.depth = l.depth ∧ l₁.squoted = l.squoted ∧
    l₁.elts = l.elts

/-- A store inside a quoted list, in the state and with the depth that `l₁` has. -/
lemma ListText.good {l₁ : Locals} (hl : ListText l L l₁ c) (hc : c ≠ nul) (hi : GoodHead l L)
    (hsq : l.squoted = false) (hs : l₁.state = .s8 ∨ l₁.state = .s10) : GoodHead l₁ L := by
  obtain ⟨hmode, hstack, hdepth, hsquoted, helts⟩ := hl.same
  refine ⟨⟨⟨hl.room, ?_⟩, hmode.trans hi.good.mode, ?_, .inr (.inr (hsquoted.trans hsq)), ?_, ?_,
    ?_, ?_, hi.good.sealed⟩, ?_⟩
  · rcases hs with hs | hs <;> simp [TokenInv, hs, hl.cursor]
  · exact noNul_append hi.good.noNul hc hl.text
  · exact hs.imp_right .inl
  · rw [hstack]
    exact hi.good.stack
  · rw [hdepth]
    exact hi.good.depth
  · rcases hs with hs | hs <;> simp [hs]
  · rw [helts]
    exact hi.fresh

lemma ListText.view {l₁ : Locals} (hl : ListText l L l₁ c) (hsq : l.squoted = false)
    (hs : l₁.state = .s8 ∨ l₁.state = .s10) :
    Proofs.view l₁.toRegs L = ⟨lexOf l₁.state, false, c == backslash, false, l₁.qdepth,
      l.val.take l.valUsed ++ [c], L.map forest⟩ := by
  have hsquoted := hl.same.2.2.2.1
  rcases hs with hs | hs <;>
    simp [Proofs.view, hs, announced, hsquoted, hsq, hl.esc, hl.text]

/-- The closing paren that ends a quoted list. -/
lemma reads_endQuotedList (h : env.Succeeds) (hi : GoodHead l L) (hsq : l.squoted = false)
    {l₁ : Locals} (hl : ListText l L l₁ rparen) (hq : l₁.qdepth = 0) (hs : l₁.state = .s1)
    (hfeed : (view l.toRegs L).feed rparen =
      Reader.finishAtom ⟨.quotedList, false, false, false, 0, l.val.take l.valUsed ++ [rparen],
        L.map forest⟩ .squote) :
    Reads rparen l (view l.toRegs L) (endQuotedList env l₁) := by
  obtain ⟨hmode, hstack, hdepth, hsquoted, helts⟩ := hl.same
  have hlt : l₁.vcur < l₁.val.length := by rw [hl.cursor, hl.room.cells]; exact hl.room.free
  have hn₁ : nul ∉ l₁.val.take l₁.valUsed := noNul_append hi.good.noNul (by decide) hl.text
  have hesc : l₁.esc = false := hl.esc
  have htree : (atomOf .squote (terminatedList l₁)).tree =
      .atom .squote (l.val.take l.valUsed ++ [rparen]) := by
    rw [atomOf, Sexp.tree, terminatedList, cstr_terminated hl.room hl.cursor hn₁, hl.text]
  have hsealed : Sealed (atomOf .squote (terminatedList l₁)) :=
    sealed_terminated hl.room hl.cursor hn₁ (Nat.le_refl _) (Nat.le_succ _)
  match L with
  | [] =>
    rw [endQuotedList_top h hlt (by rw [hstack]; exact hi.good.stack)]
    refine .take _ ⟨rfl, rfl, rfl, ?_, ?_, ?_, hsealed⟩ ?_ (by decide)
    · exact congrArg some hl.t
    · exact hl.t
    · refine ⟨⟨⟨.fresh rfl rfl rfl, rfl⟩, hmode.trans hi.good.mode, by simp [emitted],
        .inr (.inr rfl), .inr (.inr hq), ?_, hdepth.trans hi.good.depth, by simp,
        sealedLevels_nil⟩, rfl, ?_⟩
      · exact hstack ▸ hi.good.stack
      · simp [view, lexOf, announced, emitted, terminatedList, hq, Reader.start]
    · rw [hfeed, htree]
      rfl
  | T :: Ls =>
    obtain ⟨s, hrun, hok⟩ := endQuotedList_open h hlt (by rw [hstack]; exact hi.good.stack)
    rw [hrun]
    have hdepth' : l₁.depth = ((T ++ [atomOf .squote (terminatedList l₁)]) :: Ls).length := by
      rw [hdepth, hi.good.depth]
      simp
    refine ⟨_, ⟨⟨⟨.fresh rfl rfl rfl, ?_⟩, hmode.trans hi.good.mode, by simp [emitted],
      .inr (.inr (hsquoted.trans hsq)), .inr (.inr hq), hok, hdepth', ?_,
      sealedLevels_concat hi.good.sealed hsealed⟩, by simp⟩,
      .take hl.t ?_ ?_⟩
    · simp [TokenInv, emitted, terminatedList, hs]
    · simp [emitted, terminatedList, hs]
    · rw [hfeed]
      simp [Reader.finishAtom, view, lexOf, announced, emitted, terminatedList, hs, hq, hsquoted,
        hsq, hesc, forest, ← htree]
    · simp [emitted, terminatedList, hs]

lemma storeEsc_listText (h : env.Succeeds) {l₀ : Locals} (hr : Room l.toRegs)
    (hv : l.vcur = l.valUsed)
    (hb : SameBuffer l.toRegs l₀.toRegs) (hv₀ : l₀.vcur = l.vcur) (ht : l₀.t = l.t)
    (hsame : l₀.mode = l.mode ∧ l₀.stack = l.stack ∧ l₀.depth = l.depth ∧ l₀.squoted = l.squoted ∧
      l₀.elts = l.elts) :
    ∃ l₁, storeEsc env c l₀ = .ok l₁ ∧ ListText l L { l₁ with t := l₁.t + 1 } c ∧
      l₁.state = l₀.state ∧ l₁.qdepth = l₀.qdepth := by
  obtain ⟨v, a, k, hg, happ⟩ := storeEsc_ok h (hr.same hb) ((hv₀.trans hv).trans hb.2.2.symm) c
  refine ⟨_, hg, ⟨.of_appended happ rfl rfl rfl, rfl, ?_, rfl, ?_, hsame⟩, rfl, rfl⟩
  · rw [happ.text, hb.1, hb.2.2]
  · simp [ht]

lemma reads_state8 (h : env.Succeeds) (hc : c ≠ nul) (hi : GoodHead l L) (hs : l.state = .s8) :
    Reads c l (view l.toRegs L) (state8 env c l) := by
  obtain ⟨hv, -⟩ := hi.good.buffer.cursor (by simp [hs, accumulates])
  have hr := hi.good.buffer.room
  have hsq : l.squoted = false := by simpa [hs] using hi.good.plain
  have hview : view l.toRegs L =
      ⟨.quotedList, false, l.esc, false, l.qdepth, l.val.take l.valUsed, L.map forest⟩ := by
    simp [view, hs, lexOf, hsq, announced]
  have hfeed : (view l.toRegs L).feed c = Reader.feedQuotedList
      ⟨.quotedList, false, l.esc, false, l.qdepth, l.val.take l.valUsed, L.map forest⟩ c := by
    rw [hview]
    rfl
  -- the round, for each way the byte is counted
  have hcount : ∀ l₀ : Locals, countParen c l = l₀ → SameBuffer l.toRegs l₀.toRegs →
      l₀.vcur = l.vcur → l₀.t = l.t → (l₀.mode = l.mode ∧ l₀.stack = l.stack ∧
        l₀.depth = l.depth ∧ l₀.squoted = l.squoted ∧ l₀.elts = l.elts) →
      (l₀.state = .s8 ∨ l₀.state = .s10) →
      (view l.toRegs L).feed c = ([], .ok ⟨lexOf l₀.state, false, c == backslash, false, l₀.qdepth,
        l.val.take l.valUsed ++ [c], L.map forest⟩) →
      Reads c l (view l.toRegs L) (state8 env c l) := by
    intro l₀ heq hb hv₀ ht hsame hs₀ hfeed₀
    obtain ⟨l₁, hg, hl, hstate, hqd⟩ := @storeEsc_listText env l c L h l₀ hr hv hb hv₀ ht hsame
    have h9 : ¬ l₁.state = .s9 := by
      rw [hstate]
      rcases hs₀ with hs₀ | hs₀ <;> simp [hs₀]
    rw [state8, heq, hg, ok_bind, if_neg h9]
    have hs₁ : l₁.state = .s8 ∨ l₁.state = .s10 := by rwa [hstate]
    refine ⟨L, hl.good hc hi hsq hs₁, .take hl.t ?_ ?_⟩
    · rw [hfeed₀, hl.view hsq hs₁, hstate, hqd]
    · rcases hs₁ with hs₁ | hs₁ <;> simp [hs₁]
  by_cases he : l.esc = true
  · refine hcount { l with esc := false } (by rw [countParen, if_pos he]) ⟨rfl, rfl, rfl⟩ rfl rfl
      ⟨rfl, rfl, rfl, rfl, rfl⟩ (.inl hs) ?_
    rw [hfeed, feedQuotedList, if_pos he]
    simp [Reader.push, hs, lexOf]
  by_cases hl : c = lparen
  · refine hcount { l with qdepth := l.qdepth + 1 } (by rw [countParen, if_neg he, if_pos hl])
      ⟨rfl, rfl, rfl⟩ rfl rfl ⟨rfl, rfl, rfl, rfl, rfl⟩ (.inl hs) ?_
    rw [hfeed, feedQuotedList, if_neg he, if_pos hl]
    simp [Reader.push, hs, lexOf]
  by_cases hp : c = rparen
  · subst hp
    have heq : countParen rparen l = { l with qdepth := l.qdepth - 1, state := .s9 } := by
      rw [countParen, if_neg he, if_neg hl, if_pos rfl]
    obtain ⟨l₁, hg, htext, hstate, hqd⟩ := @storeEsc_listText env l rparen L h
      { l with qdepth := l.qdepth - 1, state := .s9 } hr hv ⟨rfl, rfl, rfl⟩ rfl rfl
      ⟨rfl, rfl, rfl, rfl, rfl⟩
    have hqd' : l₁.qdepth = l.qdepth - 1 := hqd
    rw [state8, heq, hg, ok_bind, if_pos hstate, state9]
    by_cases hzero : l.qdepth - 1 = 0
    · rw [if_pos (hqd'.trans hzero)]
      refine reads_endQuotedList h hi hsq ⟨htext.room.same ⟨rfl, rfl, rfl⟩, htext.cursor,
        htext.text, htext.esc, htext.t, htext.same⟩ (hqd'.trans hzero) rfl ?_
      rw [hfeed, feedQuotedList, if_neg he, if_neg hl, if_pos rfl, if_pos hzero]
      rfl
    · rw [if_neg (by rwa [hqd'])]
      have htext' : ListText l L { l₁ with t := l₁.t + 1, state := .s8 } rparen :=
        ⟨htext.room.same ⟨rfl, rfl, rfl⟩, htext.cursor, htext.text, htext.esc, htext.t, htext.same⟩
      refine ⟨L, htext'.good hc hi hsq (.inl rfl), .take htext'.t ?_ (by simp)⟩
      rw [hfeed, feedQuotedList, if_neg he, if_neg hl, if_pos rfl, if_neg hzero,
        htext'.view hsq (.inl rfl)]
      simp [Reader.push, lexOf, hqd']
  by_cases hd : c = dquote
  · refine hcount { l with state := .s10 }
      (by rw [countParen, if_neg he, if_neg hl, if_neg hp, if_pos hd])
      ⟨rfl, rfl, rfl⟩ rfl rfl ⟨rfl, rfl, rfl, rfl, rfl⟩ (.inr rfl) ?_
    rw [hfeed, feedQuotedList, if_neg he, if_neg hl, if_neg hp, if_pos hd]
    simp [Reader.push, lexOf]
  · refine hcount l (by rw [countParen, if_neg he, if_neg hl, if_neg hp, if_neg hd])
      ⟨rfl, rfl, rfl⟩ rfl rfl ⟨rfl, rfl, rfl, rfl, rfl⟩ (.inl hs) ?_
    rw [hfeed, feedQuotedList, if_neg he, if_neg hl, if_neg hp, if_neg hd]
    simp [Reader.push, hs, lexOf]

lemma reads_state10 (h : env.Succeeds) (hc : c ≠ nul) (hi : GoodHead l L) (hs : l.state = .s10) :
    Reads c l (view l.toRegs L) (state10 env c l) := by
  obtain ⟨hv, -⟩ := hi.good.buffer.cursor (by simp [hs, accumulates])
  have hr := hi.good.buffer.room
  have hsq : l.squoted = false := by simpa [hs] using hi.good.plain
  have hfeed : (view l.toRegs L).feed c = Reader.feedQuotedString
      ⟨.quotedString, false, l.esc, false, l.qdepth, l.val.take l.valUsed, L.map forest⟩ c := by
    simp [Reader.feed, feedLex, view, hs, lexOf, hsq, announced]
  rw [state10]
  by_cases hd : c = dquote ∧ l.esc = false
  · obtain ⟨l₁, hg, hl, hstate, hqd⟩ := @storeEsc_listText env l c L h { l with state := .s8 }
      hr hv ⟨rfl, rfl, rfl⟩ rfl rfl ⟨rfl, rfl, rfl, rfl, rfl⟩
    rw [if_pos hd, hg, ok_bind]
    refine ⟨L, hl.good hc hi hsq (.inl hstate), .take hl.t ?_ (by simp [hstate])⟩
    have hqd' : l₁.qdepth = l.qdepth := hqd
    rw [hfeed, feedQuotedString, if_pos hd, hl.view hsq (.inl hstate)]
    simp [Reader.push, hstate, lexOf, hqd']
  · obtain ⟨l₁, hg, hl, hstate, hqd⟩ := @storeEsc_listText env l c L h l
      hr hv ⟨rfl, rfl, rfl⟩ rfl rfl ⟨rfl, rfl, rfl, rfl, rfl⟩
    rw [if_neg hd, hg, ok_bind]
    refine ⟨L, hl.good hc hi hsq (.inr (hstate.trans hs)), .take hl.t ?_ (by simp [hstate, hs])⟩
    rw [hfeed, feedQuotedString, if_neg hd, hl.view hsq (.inr (hstate.trans hs))]
    simp [Reader.push, hstate, hs, lexOf, hqd]

lemma reads_state11 (hi : GoodHead l L) (hs : l.state = .s11) :
    Reads c l (view l.toRegs L) (state11 c l) := by
  have hu : l.valUsed = 0 := by simpa [TokenInv, hs] using hi.good.buffer.token
  have hq : l.qdepth = 0 := by simpa [hs] using hi.good.unquoted
  have hsq : l.squoted = false := by simpa [hs] using hi.good.plain
  have hfeed : (view l.toRegs L).feed c = ([], .ok
      (if c = newline then ⟨.gap, false, l.esc, false, 0, [], L.map forest⟩
        else ⟨.comment, false, l.esc, false, 0, [], L.map forest⟩)) := by
    simp [Reader.feed, feedLex, view, hs, lexOf, hsq, hq, hu, announced]
  rw [state11]
  split_ifs at hfeed with hn
  · rw [if_pos hn]
    refine ⟨L, ⟨hi.good.between hu hq ⟨rfl, rfl, rfl⟩ rfl rfl rfl hsq rfl (.inl rfl), hi.fresh⟩,
      .take rfl ?_ (by simp)⟩
    rw [hfeed]
    simp [view, lexOf, hsq, hq, hu, announced]
  · rw [if_neg hn]
    refine ⟨L, ⟨hi.good.between hu hq ⟨rfl, rfl, rfl⟩ rfl rfl rfl hsq rfl (by simp), hi.fresh⟩,
      .take rfl ?_ (by simp)⟩
    rw [hfeed]
    simp [view, lexOf, hsq, hq, hu, announced]

lemma reads_state6 (hi : GoodHead l L) (hs : l.state = .s6) :
    Reads c l (view l.toRegs L) (.ok { l with vcur := 0, state := .s1 }) := by
  have hu : l.valUsed = 0 := by simpa [TokenInv, hs] using hi.good.buffer.token
  have hq : l.qdepth = 0 := by simpa [hs] using hi.good.unquoted
  have hsq : l.squoted = false := by simpa [hs] using hi.good.plain
  refine ⟨L, ⟨hi.good.between hu hq ⟨rfl, rfl, rfl⟩ rfl rfl rfl hsq rfl (.inl rfl), hi.fresh⟩,
    .defer rfl ?_ (by simp)⟩
  rw [hi.good.view_gap (.inr (.inr hs))]
  simp [view, lexOf, hsq, hq, hu, announced]

/-- The rounds in which the byte is not escaped inside double quotes. -/
lemma reads_switch (h : env.Succeeds) (hc : c ≠ nul) (hi : GoodHead l L)
    (h3 : l.state = .s3 → c = rparen)
    (h5 : l.state = .s5 → (l.esc && isEscapable c) = false) :
    Reads c l (view l.toRegs L) (switch env c l) := by
  rw [switch]
  cases hs : l.state with
  | s1 => exact reads_state1 h hc hi hs
  | s2 => exact reads_state2 h hi hs
  | s3 => exact reads_state3 (h3 hs) hi hs
  | s4 => exact reads_state4 h hc hi hs
  | s5 =>
    have hrest := reads_state5Rest h hc hi hs (h5 hs)
    rwa [state5, h5 hs]
  | s6 => exact reads_state6 hi hs
  | s7 => exact reads_state7 h hi hs
  | s8 => exact reads_state8 h hc hi hs
  | s10 => exact reads_state10 h hc hi hs
  | s11 => exact reads_state11 hi hs
  | s9 => exact absurd hi.good.buffer.token (by simp [TokenInv, hs])
  | unknown => exact absurd hi.good.buffer.token (by simp [TokenInv, hs])
  | s12 => exact absurd hs hi.good.textual.1
  | s13 => exact absurd hs hi.good.textual.2.1
  | s14 => exact absurd hs hi.good.textual.2.2.1
  | s15 => exact absurd hs hi.good.textual.2.2.2

end Round

end Sfsexp.Proofs
