import Sfsexp.Proofs.Chunks

/-!
# `parse_sexp` reads the first expression

On a string, `parse_sexp` returns the first tree that the reader puts out on the string and a
newline behind it.
-/

namespace Sfsexp.Proofs

open Sfsexp Spec

variable {g g' : Setup} {w tail : List Byte} {e : ErrCode}

/-- The newline ends no token inside double quotes. -/
lemma feed_newline_quoted {r : Reader} (h : r.lex = .quoted) : (r.feed newline).1 = [] := by
  unfold Reader.feed Reader.feedLex
  rw [h]
  dsimp only
  unfold Reader.feedQuoted
  rw [show isEscapable newline = false from rfl, Bool.and_false, if_neg Bool.false_ne_true,
    if_neg (by decide)]

/-- The first call of `parse_sexp`. -/
lemma parseSexp_first (hg : g.Succeeds) (hnul : nul ∉ w) (htail : tail ≠ []) :
    ∃ s, cparseSexp g (some (w ++ tail)) w.length none e = Result.ofStop (some s) ∧
      Ends w tail (scan Reader.start w) s := by
  have hb : Holding (Call.env ⟨g, w ++ tail, w.length, e⟩) w tail :=
    ⟨hg, rfl, Nat.le_refl _, .inl rfl, htail, hnul⟩
  obtain ⟨s, hrun, hends⟩ := run_ends_reading 3 hb (good_new g) (by simp [Pcont.new])
    (Nat.zero_le _)
  refine ⟨s, ?_, ?_⟩
  · rw [cparseSexp, initContinuation_of_succeeds hg]
    exact congrArg Result.ofStop hrun
  · rw [view_new] at hends
    exact hends

/-- The call of `parse_sexp` with a newline. -/
lemma parseSexp_second (hg : g.Succeeds) {cc : Pcont} {L : List (List Sexp)}
    (hi : Good cc.toRegs L) (h3 : cc.state ≠ .s3) (hpos : cc.lastPos = none) :
    ∃ s, cparseSexp g (some [newline, nul]) 2 (some cc) e = Result.ofStop (some s) ∧
      Ends [newline] [nul] ((view cc.toRegs L).feed newline) s := by
  have hb : Holding (Call.env ⟨g, [newline, nul], 2, e⟩) [newline] [nul] :=
    ⟨hg, rfl, Nat.le_succ 1, .inr rfl, by simp, by decide⟩
  obtain ⟨s, hcall, hends⟩ := call_ends (k := ⟨g, [newline, nul], 2, e⟩) hb hi h3
    (by simp [hpos])
  refine ⟨s, hcall, ?_⟩
  rw [hpos] at hends
  exact scan_singleton (view cc.toRegs L) newline ▸ hends

/-- The tree that a list of returned elements and the outputs of the reader agree on. -/
def ResultReads (o : Option (List Sexp)) : List Tree → Prop
  | [] => o = some [] ∨ o = none
  | t :: _ => ∃ x, o = some [x] ∧ x.tree = t ∧ Sealed x

lemma parseSexp_again (hg : g'.Succeeds) {R : Return} {L : List (List Sexp)}
    (hcall : cparseSexp g (some (w ++ tail)) w.length none e = .ret R) (hw : w ≠ [])
    (hi : Good R.cc.toRegs L) (h3 : R.cc.state ≠ .s3) (hpos : R.cc.lastPos = none)
    (herror : R.errno = .incomplete) :
    ResultReads (parseSexp g g' (some (w ++ tail)) w.length e)
      ((view R.cc.toRegs L).feed newline).1 := by
  have hlen : ¬ w.length < 1 := by
    have := List.length_pos_iff.mpr hw
    omega
  obtain ⟨s, hagain, hends⟩ := parseSexp_second (e := R.errno) hg hi h3 hpos
  rw [parseSexp, if_neg hlen, hcall]
  dsimp only
  rw [if_pos ⟨herror, hpos⟩, hagain]
  generalize (view R.cc.toRegs L).feed newline = q at hends
  cases hends with
  | more R' L' hgood hq htree =>
    rw [hq]
    exact .inl (congrArg some htree)
  | tree R' x p hr hp hq =>
    rw [hq]
    exact ⟨x, congrArg some hr.tree, rfl, hr.sealed⟩
  | bad R' hr hq =>
    rw [hq]
    exact .inl (congrArg some hr.tree)
  | stray hq =>
    rw [hq]
    exact .inr rfl
  | overrun s r hq hpair hlex hs =>
    rw [hq, hs rfl]
    exact .inr rfl

/-- `parse_sexp` on a string with the NUL behind it. -/
theorem parseSexp_reads (hg : g.Succeeds) (hg' : g'.Succeeds) (hw : w ≠ []) (hnul : nul ∉ w)
    (htail : tail ≠ []) (hread : tail = [nul] ∨ (scan Reader.start (w ++ [newline])).1 ≠ []) :
    ResultReads (parseSexp g g' (some (w ++ tail)) w.length e)
      (scan Reader.start (w ++ [newline])).1 := by
  have hlen : ¬ w.length < 1 := by
    have := List.length_pos_iff.mpr hw
    omega
  obtain ⟨s, hcall, hends⟩ := parseSexp_first (e := e) hg hnul htail
  rw [scan_append] at hread ⊢
  generalize scan Reader.start w = q at hends hread
  cases hends with
  | more R L hgood hq htree herror herrno hpos hcursor h3 =>
    rw [hq, scanOn_silent, scan_singleton]
    exact parseSexp_again hg' hcall hw hgood h3 hpos herrno
  | tree R x p hr hp hq =>
    rw [hq, scanOn_cons]
    refine ⟨x, ?_, rfl, hr.sealed⟩
    rw [parseSexp, if_neg hlen, hcall]
    dsimp only [Result.ofStop]
    rw [if_neg (by simp [hr.errno]), hr.tree]
  | bad R hr hq =>
    rw [hq, scanOn_error]
    refine .inl ?_
    rw [parseSexp, if_neg hlen, hcall]
    dsimp only [Result.ofStop]
    rw [if_neg (by simp [hr.errno]), hr.tree]
  | stray hq =>
    rw [hq, scanOn_error]
    refine .inr ?_
    rw [parseSexp, if_neg hlen, hcall]
    rfl
  | overrun s r hq hpair hlex hs =>
    have hnone : (scanOn q [newline]).1 = [] := by
      rw [hq, scanOn_silent, scan_singleton, feed_newline_quoted hlex]
    rw [hnone] at hread ⊢
    refine .inr ?_
    have htail' : tail = [nul] := hread.resolve_right fun h => h rfl
    rw [parseSexp, if_neg hlen, hcall, hs htail']
    rfl

end Sfsexp.Proofs
