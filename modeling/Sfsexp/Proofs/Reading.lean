import Sfsexp.Spec.Reader

/-!
# How the reader reads a token

Runs of bytes that continue a token, and the byte that ends it. Between two tokens only the open
lists and the escape flag of the token before are left.
-/

namespace Sfsexp.Proofs

open Sfsexp Spec

/-- The reader between two tokens. -/
def between (esc : Bool) (Ls : List (List Tree)) : Reader := ⟨.gap, false, esc, false, 0, [], Ls⟩

@[simp] lemma between_nil : between false [] = Reader.start := rfl

/-- An element is complete: it goes to the innermost open list, or out. -/
def give (x : Tree) (esc : Bool) : List (List Tree) → Outcome
  | [] => ([x], .ok .start)
  | T :: Ls => ([], .ok (between esc ((T ++ [x]) :: Ls)))

/-- The type of an atom that no quote ends. -/
def bareOf (squoted : Bool) : AtomT := if squoted then .squote else .basic

section Between

variable {esc : Bool} {Ls : List (List Tree)} {c : Byte}

lemma feed_between : (between esc Ls).feed c = (between esc Ls).feedGap c := rfl

lemma scan_between {w : List Byte} :
    scan (between esc Ls) (c :: w) = scanOn ((between esc Ls).feedGap c) w := scan_cons _ _ _

lemma gap_white (h : isWhite c = true) :
    (between esc Ls).feedGap c = ([], .ok (between esc Ls)) := by
  unfold Reader.feedGap
  rw [if_pos h]

lemma gap_comment : (between esc Ls).feedGap semicolon =
    ([], .ok ⟨.comment, false, esc, false, 0, [], Ls⟩) := rfl

lemma gap_open : (between esc Ls).feedGap lparen = ([], .ok (between esc ([] :: Ls))) := rfl

lemma gap_bad : (between esc []).feedGap rparen = ([], .error .badForm) := rfl

/-- A closing paren completes the innermost list. -/
lemma gap_close {T : List Tree} :
    (between esc (T :: Ls)).feedGap rparen = give (.list T) esc Ls := by
  cases Ls <;> rfl

lemma gap_dquote :
    (between esc Ls).feedGap dquote = ([], .ok ⟨.quoted, false, esc, false, 0, [], Ls⟩) := rfl

lemma gap_tick :
    (between esc Ls).feedGap tick = ([], .ok ⟨.tick, false, esc, false, 0, [], Ls⟩) := rfl

lemma gap_bare (hw : isWhite c = false) (hs : c ≠ semicolon) (hl : c ≠ lparen) (hr : c ≠ rparen)
    (hd : c ≠ dquote) (ht : c ≠ tick) :
    (between esc Ls).feedGap c = ([], .ok ⟨.bare, false, c == backslash, false, 0, [c], Ls⟩) := by
  unfold Reader.feedGap
  simp [hw, hs, hl, hr, hd, ht, Reader.push, between]

end Between

section Token

variable {sq esc pair : Bool} {text u w : List Byte} {Ls : List (List Tree)} {c : Byte}

lemma finishAtom_give {lex : Lex} {aty : AtomT} :
    (⟨lex, sq, esc, false, 0, text, Ls⟩ : Reader).finishAtom aty = give (.atom aty text) esc Ls := by
  cases Ls <;> rfl

lemma bare_push (ha : isAtomByte c = true) (he : (esc && isEscapable c) = false) :
    (⟨.bare, sq, esc, pair, 0, text, Ls⟩ : Reader).feed c =
      ([], .ok ⟨.bare, sq, c == backslash, false, 0, text ++ [c], Ls⟩) := by
  simp [Reader.feed, Reader.feedLex, Reader.feedBare, ha, he, Reader.push]

/-- A run of atom bytes without a backslash. -/
lemma bare_run (ha : ∀ c ∈ u, isAtomByte c = true) (hb : backslash ∉ u) :
    scan ⟨.bare, sq, false, false, 0, text, Ls⟩ u =
      ([], .ok ⟨.bare, sq, false, false, 0, text ++ u, Ls⟩) := by
  induction u generalizing text with
  | nil => simp
  | cons c u ih =>
    obtain ⟨hc, hb⟩ := not_or.mp (mt List.mem_cons.mpr hb)
    have hclear : (c == backslash) = false := by simpa using Ne.symm hc
    rw [scan_cons, bare_push (ha c List.mem_cons_self) (by simp), scanOn_silent, hclear,
      ih (fun d hd => ha d (List.mem_cons_of_mem _ hd)) hb]
    simp

/-- The byte behind a bare atom is read as if the atom were not there. -/
lemma bare_end (ha : isAtomByte c = false) (he : (esc && isEscapable c) = false) :
    scan ⟨.bare, sq, esc, false, 0, text, Ls⟩ (c :: w) =
      scanOn (give (.atom (bareOf sq) text) esc Ls) (c :: w) := by
  have hfeed : (⟨.bare, sq, esc, false, 0, text, Ls⟩ : Reader).feed c =
      scanOn (give (.atom (bareOf sq) text) esc Ls) [c] := by
    unfold Reader.feed Reader.feedLex Reader.feedBare
    simp only [ha, he, Bool.false_eq_true, if_false, finishAtom_give]
    cases Ls with
    | nil =>
      conv_rhs => rw [give, scanOn_ok, scan_singleton]
      rfl
    | cons T Ls =>
      conv_rhs => rw [give, scanOn_silent, scan_singleton]
      rfl
  rw [scan_cons, hfeed, scanOn_scanOn, List.singleton_append]

/-- A byte inside double quotes that is neither escaped nor their end. -/
lemma quoted_push (hd : c ≠ dquote) (he : (esc && isEscapable c) = false) :
    (⟨.quoted, sq, esc, pair, 0, text, Ls⟩ : Reader).feed c =
      ([], .ok ⟨.quoted, sq, c == backslash, false, 0, text ++ [c], Ls⟩) := by
  simp [Reader.feed, Reader.feedLex, Reader.feedQuoted, hd, he, Reader.push]

lemma quoted_run (hd : dquote ∉ u) (hb : backslash ∉ u) :
    scan ⟨.quoted, sq, false, false, 0, text, Ls⟩ u =
      ([], .ok ⟨.quoted, sq, false, false, 0, text ++ u, Ls⟩) := by
  induction u generalizing text with
  | nil => simp
  | cons c u ih =>
    obtain ⟨hc, hb⟩ := not_or.mp (mt List.mem_cons.mpr hb)
    obtain ⟨hq, hd⟩ := not_or.mp (mt List.mem_cons.mpr hd)
    have hclear : (c == backslash) = false := by simpa using Ne.symm hc
    rw [scan_cons, quoted_push (Ne.symm hq) (by simp), scanOn_silent, hclear, ih hd hb]
    simp

/-- The atom that a closing double quote ends. -/
def quotedOf (squoted : Bool) (text : List Byte) : Tree :=
  if squoted then .atom .squote (text ++ [dquote]) else .atom .dquote text

lemma quoted_end :
    (⟨.quoted, sq, false, pair, 0, text, Ls⟩ : Reader).feed dquote =
      give (quotedOf sq text) false Ls := by
  cases sq <;> exact finishAtom_give

/-- Behind an apostrophe, any byte but a quote or an open paren belongs to a bare atom. -/
lemma tick_bare (hd : c ≠ dquote) (hl : c ≠ lparen) :
    scan ⟨.tick, sq, esc, pair, 0, text, Ls⟩ (c :: w) =
      scan ⟨.bare, true, esc, pair, 0, text, Ls⟩ (c :: w) := by
  rw [scan_cons, scan_cons]
  unfold Reader.feed Reader.feedLex Reader.feedTick
  dsimp only
  rw [if_neg hd, if_neg hl]

lemma tick_string :
    scan ⟨.tick, sq, esc, pair, 0, [], Ls⟩ (dquote :: w) =
      scan ⟨.quoted, true, esc, false, 0, [dquote], Ls⟩ w := scan_cons _ _ _

lemma tick_list :
    scan ⟨.tick, sq, false, pair, 0, [], Ls⟩ (lparen :: w) =
      scan ⟨.quotedList, sq, false, false, 1, [lparen], Ls⟩ w := scan_cons _ _ _

end Token

end Sfsexp.Proofs
