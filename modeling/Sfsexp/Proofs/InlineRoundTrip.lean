import Sfsexp.Proofs.InlineBlobs
import Sfsexp.Proofs.InlineQuotes
import Sfsexp.Proofs.Termination

/-!
# What is printed is read back, blobs included

In inline binary mode the parser reads the rendering of an expression, with the bytes of its blobs,
as that expression.
-/

namespace Sfsexp.Proofs

open Sfsexp Spec

section Elements

variable {env : Env} {l : Locals} {c : Byte} {w : List Byte} {L : List (List Sexp)}

lemma render_cons {x : Tree} (hx : InlineReadable x) (w : List Byte) :
    ∃ d v, x.render ++ w = d :: v ∧ d ≠ nul := by
  match x, hx with
  | .atom .basic text, hx =>
    obtain ⟨d, t, rfl⟩ := List.exists_cons_of_ne_nil hx.1.1
    exact ⟨d, _, rfl, ne_nul_of_atomByte (hx.1.2.1 d List.mem_cons_self)⟩
  | .atom .squote text, _ => exact ⟨tick, _, rfl, by decide⟩
  | .atom .dquote text, _ => exact ⟨dquote, _, rfl, by decide⟩
  | .binary data, _ => exact ⟨hash, _, rfl, by decide⟩
  | .list elems, _ => exact ⟨lparen, _, rfl, by decide⟩

lemma renderAll_cons {xs : List Tree} (hxs : InlineReadableAll xs) (w : List Byte) :
    ∃ d v, renderAll xs ++ rparen :: w = d :: v ∧ d ≠ nul := by
  match xs, hxs with
  | [], _ => exact ⟨rparen, w, rfl, by decide⟩
  | x :: xs, hxs =>
    obtain ⟨d, v, hd, hnul⟩ := render_cons hxs.1 (separator xs ++ (renderAll xs ++ rparen :: w))
    refine ⟨d, v, ?_, hnul⟩
    rw [← hd, renderAll]
    simp

/-- An open paren. -/
lemma list_opens (h : env.Succeeds) (hg : Gap .s1 L l.toRegs) (hc : c ≠ nul)
    (hrest : Rest env l.t (lparen :: c :: w)) :
    Gets env (c :: w) (fun l' => Gap .s1 ([] :: L) l'.toRegs) l := by
  obtain ⟨m, hm⟩ : ∃ m : Locals, m = { l with
      state := .s2, t := l.t + 1
      events := l.events ++ heard (·.startSexpr) .startSexpr l.eventHandlers } := ⟨_, rfl⟩
  have hopen : cparseHead env l = .ok m := by
    rw [gap_head hg (by decide) hrest, hm]
    exact congrArg Except.ok (fire_eq _ _ _)
  have hmt : m.t = l.t + 1 := by rw [hm]
  have hmgap : Gap .s2 L m.toRegs := by
    have hto : Gap .s2 L { l.toRegs with state := .s2, vcur := l.vcur } := hg.to
    rw [hm]
    exact hto
  have hahead : Rest env m.t (c :: w) := by
    rw [hmt]
    exact hrest.tail
  have hs := hmgap.state
  obtain ⟨s, k, hrun, hok⟩ := state2_ok h hmgap.stack
  have hround : cparseHead env m = .ok { m with
      depth := m.depth + 1, elts := m.elts + 1, sx := [.list []], stack := s, state := .s1
      allocs := k } := by
    rw [head_of_rest hahead hc (by simp [hs]), switch, hs]
    exact hrun
  refine .step hopen (.step hround (.here hahead ?_))
  have hdepth : m.depth + 1 = ([] :: L).length := by
    rw [hmgap.depth]
    rfl
  exact ⟨⟨hmgap.mode, ⟨hmgap.room.cells, hmgap.room.free⟩, hmgap.esc, hok, hdepth⟩, rfl, hmgap.used,
    hmgap.squoted, hmgap.qdepth⟩

/-- The closing paren of an inner list. -/
lemma list_closes {T T' : List Sexp} {Ls : List (List Sexp)} (hg : Gap .s3 (T' :: T :: Ls) l.toRegs)
    (hrest : Rest env l.t (rparen :: w)) :
    Gets env w (fun l' => Gap .s1 ((T ++ [.list T']) :: Ls) l'.toRegs) l := by
  have hs := hg.state
  obtain ⟨s, hrun, hok⟩ := state3_inner hg.stack hg.depth
  have hhead : cparseHead env l = state3 l := by
    rw [head_of_rest hrest (by decide) (by simp [hs]), switch, hs]
  refine .step (hhead.trans hrun) (.here hrest.tail ?_)
  exact ⟨⟨hg.mode, ⟨hg.room.cells, hg.room.free⟩, hg.esc, hok, rfl⟩, rfl, hg.used, hg.squoted,
    hg.qdepth⟩

/-- An atom inside a list. -/
lemma atom_run (h : env.Succeeds) {aty : AtomT} {text : List Byte}
    (hx : InlineReadable (.atom aty text)) {T : List Sexp} {Ls : List (List Sexp)}
    (hg : Gap .s1 (T :: Ls) l.toRegs) (hc : Separates c)
    (hrest : Rest env l.t (renderAtom aty text ++ c :: w)) :
    Gets env (behind c w) (Gained (.atom aty text) (stateBehind c) T Ls) l := by
  obtain ⟨hread, hblob⟩ := hx
  cases aty with
  | basic => exact basic_run h hg hread (hblob rfl) hc hrest
  | squote => exact squote_run h hg hread hc hrest
  | dquote => exact dquote_run h hg hread hc hrest
  | binary => exact absurd hread id

mutual
/-- An element of a list is read as the element. -/
lemma element_run (h : env.Succeeds) (x : Tree) (hx : InlineReadable x) {l : Locals} {c : Byte}
    {w : List Byte} {T : List Sexp} {Ls : List (List Sexp)} (hg : Gap .s1 (T :: Ls) l.toRegs)
    (hc : Separates c) (hrest : Rest env l.t (x.render ++ c :: w)) :
    Gets env (behind c w) (Gained x (stateBehind c) T Ls) l := by
  match x, hx with
  | .atom aty text, hx => exact atom_run h hx hg hc hrest
  | .binary data, hx =>
    refine (blob_run h hx hg hrest).trans ?_
    rintro m hahead ⟨y, htree, hwhole, hm, -, -⟩
    have hgained : Gained (.binary data) .s1 T Ls m := ⟨y, htree, hwhole, hm⟩
    -- the space that belongs to the blob
    refine (settle_gained (.inl rfl) hgained hahead).trans ?_
    intro m hahead hm
    exact settle_gained hc hm hahead
  | .list elems, hx =>
    obtain ⟨d, v, hd, hnul⟩ := renderAll_cons hx (c :: w)
    have hbytes : (Tree.list elems).render ++ c :: w =
        lparen :: (renderAll elems ++ rparen :: c :: w) := by
      rw [Tree.render]
      simp
    rw [hbytes, hd] at hrest
    refine (list_opens h hg hnul hrest).trans ?_
    intro m hahead hm
    rw [← hd] at hahead
    refine (chain_run h elems hx hm hahead).trans ?_
    rintro m hahead ⟨ys, htrees, hwhole, hm⟩
    refine (list_closes hm hahead).trans ?_
    intro m hahead hm
    rw [List.nil_append] at hm
    refine settle_gained hc ⟨.list ys, ?_, hwhole, hm⟩ hahead
    rw [Sexp.tree, htrees]

/-- The elements of a list are read one after the other. -/
lemma chain_run (h : env.Succeeds) (xs : List Tree) (hxs : InlineReadableAll xs) {l : Locals}
    {w : List Byte} {T : List Sexp} {Ls : List (List Sexp)} (hg : Gap .s1 (T :: Ls) l.toRegs)
    (hrest : Rest env l.t (renderAll xs ++ rparen :: w)) :
    Gets env (rparen :: w)
      (fun l' => ∃ ys, forest ys = xs ∧ WholeAll ys ∧ Gap .s3 ((T ++ ys) :: Ls) l'.toRegs) l := by
  match xs, hxs with
  | [], _ =>
    refine (settle (.inr rfl) hg hrest).mono ?_
    intro m hm
    exact ⟨[], rfl, trivial, by rwa [List.append_nil]⟩
  | [x], hxs =>
    have hlast : Rest env l.t (x.render ++ rparen :: w) := by
      simpa [renderAll, separator] using hrest
    refine (element_run h x hxs.1 hg (.inr rfl) hlast).mono ?_
    rintro m ⟨y, htree, hwhole, hm⟩
    exact ⟨[y], by rw [forest, htree, forest], ⟨hwhole, trivial⟩, hm⟩
  | x :: y :: xs, hxs =>
    have hfirst : Rest env l.t (x.render ++ space :: (renderAll (y :: xs) ++ rparen :: w)) := by
      rw [renderAll, separator] at hrest
      simpa using hrest
    refine (element_run h x hxs.1 hg (.inl rfl) hfirst).trans ?_
    rintro m hahead ⟨z, htree, hwhole, hm⟩
    refine (chain_run h (y :: xs) hxs.2 hm hahead).mono ?_
    rintro m ⟨zs, htrees, hwholes, hm⟩
    refine ⟨z :: zs, by rw [forest, htree, htrees], ⟨hwhole, hwholes⟩, ?_⟩
    rwa [List.append_assoc, List.singleton_append] at hm
end

end Elements

section Roots

variable {env : Env} {l : Locals} {w : List Byte}

/-- The call returned the element `y`, with the bytes `w` ahead. -/
structure Delivered (env : Env) (w : List Byte) (y : Sexp) (R : Return) : Prop where
  tree : R.cc.lastSexp = [y]
  error : R.cc.error = .ok
  errno : R.errno = .ok
  gap : Gap .s1 [] R.cc.toRegs
  ahead : Rest env (R.cc.lastPos.getD 0) w

/-- An expression at the top level is returned. -/
lemma root_run (h : env.Succeeds) {elems : List Tree} (hx : InlineReadableAll elems)
    (hg : Gap .s1 [] l.toRegs) (hrest : Rest env l.t ((Tree.list elems).render ++ w)) :
    ∃ R y, Loop.Halts (cparseHead env) l (.ret R) ∧ Delivered env w y R ∧
      y.tree = .list elems ∧ Whole y := by
  obtain ⟨d, v, hd, hnul⟩ := renderAll_cons hx w
  have hbytes : (Tree.list elems).render ++ w = lparen :: (renderAll elems ++ rparen :: w) := by
    rw [Tree.render]
    simp
  rw [hbytes, hd] at hrest
  have hchildren : Gets env (rparen :: w)
      (fun l' => ∃ ys, forest ys = elems ∧ WholeAll ys ∧ Gap .s3 [ys] l'.toRegs) l := by
    refine (list_opens h hg hnul hrest).trans ?_
    intro m hahead hm
    rw [← hd] at hahead
    exact chain_run h elems hx hm hahead
  obtain ⟨m, hreach, hahead, ys, htrees, hwhole, hm⟩ := hchildren
  have hs := hm.state
  obtain ⟨s, hrun, hok⟩ := state3_outer hm.stack hm.depth
  have hexit : cparseHead env m = state3 m := by
    rw [head_of_rest hahead (by decide) (by simp [hs]), switch, hs]
  refine ⟨_, .list ys, Loop.halts_of_reaches hreach (Loop.halts_of_exit (hexit.trans hrun)),
    ⟨rfl, rfl, rfl, ?_, hahead.tail⟩, ?_, hwhole⟩
  · exact ⟨⟨hm.mode, ⟨hm.room.cells, hm.room.free⟩, rfl, hok, rfl⟩, rfl, hm.used, hm.squoted,
      hm.qdepth⟩
  · rw [Sexp.tree, htrees]

end Roots

/-- A new continuation that is put in inline binary mode. -/
def Pcont.inline (g : Setup) : Pcont := { Pcont.new g with mode := .inlineBinary }

lemma gap_inline (g : Setup) : Gap .s1 [] (Pcont.inline g).toRegs :=
  ⟨⟨rfl, ⟨g.length_fresh _, g.params.start_pos⟩, rfl, stackOk_makeStack, rfl⟩, rfl, rfl, rfl, rfl⟩

lemma Gap.sane {L : List (List Sexp)} {r : Regs} (hg : Gap .s1 L r) : Sane r := by
  have hs := hg.state
  exact ⟨by simp [hs], by simp [hs]⟩

/-- A call ends where its loop ends. -/
lemma call_of_halts {k : Call} {cc : Pcont} {L : List (List Sexp)} (hg : Gap .s1 L cc.toRegs)
    {R : Return} (hrun : Loop.Halts (cparseHead k.env) (cc.enter 0) (.ret R)) :
    cparseSexp k.setup (some k.buf) k.len (some cc) k.errno = .ret R :=
  cparseSexp_eq_of_halts (by simp [hg.mode]) hg.sane hrun

lemma readable_blob {data : List Byte} (h : data.length < 2147483648) :
    InlineReadable (.binary data) := by
  rw [InlineReadable]
  omega

end Sfsexp.Proofs
