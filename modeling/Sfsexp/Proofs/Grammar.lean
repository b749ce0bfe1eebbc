import Sfsexp.Lib.Cells
import Sfsexp.Spec.Grammar
import Sfsexp.Proofs.Chunks
import Sfsexp.Proofs.Reading

/-!
# The parser reads its grammar

On a text without backslashes the reader, and with it the parser, does what the recursive reader of
the grammar does.
-/

namespace Sfsexp.Proofs

open Sfsexp Spec

section Rest

variable {w u v rest : List Byte} {c : Byte} {x : Tree}

mutual
lemma skipGap_suffix (w : List Byte) : skipGap w <:+ w := by
  cases w with
  | nil => exact List.suffix_rfl
  | cons c w =>
    unfold skipGap
    split_ifs
    · exact (skipGap_suffix w).trans (List.suffix_cons c w)
    · exact (skipComment_suffix w).trans (List.suffix_cons c w)
    · exact List.suffix_rfl

lemma skipComment_suffix (w : List Byte) : skipComment w <:+ w := by
  cases w with
  | nil => exact List.suffix_rfl
  | cons c w =>
    unfold skipComment
    split_ifs
    · exact (skipGap_suffix w).trans (List.suffix_cons c w)
    · exact (skipComment_suffix w).trans (List.suffix_cons c w)
end

end Rest

section Suffix

variable {n : Nat} {w v rest : List Byte} {T : List Tree} {x : Tree} {c : Byte}

lemma skipGap_cons (h : skipGap w = c :: v) : v <:+ w ∧ v.length < w.length := by
  have hsuffix := skipGap_suffix w
  rw [h] at hsuffix
  have hlen := hsuffix.length_le
  rw [List.length_cons] at hlen
  exact ⟨(List.suffix_cons c v).trans hsuffix, by omega⟩

end Suffix

section Scan

variable {n : Nat} {w v rest text : List Byte} {Ls : List (List Tree)} {x : Tree} {c : Byte}
  {esc : Bool}

/-- The text is read without output and without a stop. -/
def Silent (o : Outcome) : Prop := ∃ r, o = ([], .ok r)

lemma Silent.cons {r r' : Reader} (h : r.feed c = ([], .ok r')) (hs : Silent (scan r' w)) :
    Silent (scan r (c :: w)) := by
  rwa [scan_cons, h, scanOn_silent]

mutual
/-- A gap leaves the reader where it is, or is not over. -/
lemma scan_gap (w : List Byte) :
    (skipGap w = [] ∧ Silent (scan (between esc Ls) w)) ∨
      (skipGap w ≠ [] ∧ scan (between esc Ls) w = scan (between esc Ls) (skipGap w)) := by
  cases w with
  | nil => exact .inl ⟨rfl, _, rfl⟩
  | cons c w =>
    unfold skipGap
    split_ifs with hwhite hsemi
    · rw [scan_between, gap_white hwhite, scanOn_silent]
      exact scan_gap w
    · subst hsemi
      rw [scan_between, gap_comment, scanOn_silent]
      exact scan_comment w
    · exact .inr ⟨by simp, rfl⟩

lemma scan_comment (w : List Byte) :
    (skipComment w = [] ∧ Silent (scan ⟨.comment, false, esc, false, 0, [], Ls⟩ w)) ∨
      (skipComment w ≠ [] ∧ scan ⟨.comment, false, esc, false, 0, [], Ls⟩ w =
        scan (between esc Ls) (skipComment w)) := by
  cases w with
  | nil => exact .inl ⟨rfl, _, rfl⟩
  | cons c w =>
    rw [scan_cons]
    unfold skipComment Reader.feed Reader.feedLex
    dsimp only
    split_ifs
    · rw [scanOn_silent]
      exact scan_gap w
    · rw [scanOn_silent]
      exact scan_comment w
end

lemma scan_gap_cons (h : skipGap w = c :: v) :
    scan (between esc Ls) w = scan (between esc Ls) (c :: v) := by
  rcases @scan_gap Ls esc w with ⟨hnil, -⟩ | ⟨-, hscan⟩
  · rw [h] at hnil
    cases hnil
  · rw [hscan, h]

lemma scan_gap_nil (h : skipGap w = []) : (scan (between esc Ls) w).1 = [] := by
  rcases @scan_gap Ls esc w with ⟨-, r, hr⟩ | ⟨hne, -⟩
  · rw [hr]
  · exact absurd h hne

mutual
lemma skipGap_head (w : List Byte) (h : skipGap w = c :: v) :
    isWhite c = false ∧ c ≠ semicolon := by
  cases w with
  | nil => cases h
  | cons d w =>
    unfold skipGap at h
    split_ifs at h with hwhite hsemi
    · exact skipGap_head w h
    · exact skipComment_head w h
    · cases h
      exact ⟨by simpa using hwhite, hsemi⟩

lemma skipComment_head (w : List Byte) (h : skipComment w = c :: v) :
    isWhite c = false ∧ c ≠ semicolon := by
  cases w with
  | nil => cases h
  | cons d w =>
    unfold skipComment at h
    split_ifs at h
    · exact skipGap_head w h
    · exact skipComment_head w h
end

variable {sq : Bool}

/-- Where the reader is inside a quoted list. -/
def listLex (inString : Bool) : Lex := if inString then .quotedString else .quotedList

lemma quotedList_push {depth : Nat} {inString : Bool} (hb : c ≠ backslash)
    (hend : ¬ (c = rparen ∧ inString = false ∧ depth = 1)) (hpos : c = rparen → 0 < depth) :
    (⟨listLex inString, sq, false, false, depth, text, Ls⟩ : Reader).feed c =
      ([], .ok ⟨listLex (inString ^^ (c == dquote)), sq, false, false,
        depthAfter depth inString c, text ++ [c], Ls⟩) := by
  have hclear : (c == backslash) = false := by simpa using hb
  unfold Reader.feed Reader.feedLex
  cases inString with
  | true =>
    by_cases hd : c = dquote
    · subst hd
      rfl
    · simp [listLex, Reader.feedQuotedString, hd, hclear, depthAfter, Reader.push]
  | false =>
    dsimp only [listLex]
    unfold Reader.feedQuotedList
    by_cases hl : c = lparen
    · subst hl
      rfl
    · by_cases hr : c = rparen
      · subst hr
        have hdepth := hpos rfl
        have hne : depth ≠ 1 := fun h => hend ⟨rfl, rfl, h⟩
        have hzero : depth - 1 ≠ 0 := by omega
        have hcast : (depth : Int) - 1 = ((depth - 1 : Nat) : Int) := by omega
        simp [show rparen ≠ lparen by decide, show rparen ≠ dquote by decide, hzero, hcast,
          depthAfter, Reader.push, hclear]
      · by_cases hd : c = dquote
        · subst hd
          rfl
        · simp [hl, hr, hd, hclear, depthAfter, Reader.push]

lemma quotedList_end :
    (⟨.quotedList, sq, false, false, 1, text, Ls⟩ : Reader).feed rparen =
      give (.atom .squote (text ++ [rparen])) false Ls :=
  finishAtom_give

end Scan

section Elements

variable {n : Nat} {w rest : List Byte} {T : List Tree} {Ls : List (List Tree)}

/-- What a call of the parser answers: the tree and the error. -/
def answer (R : Return) : List Tree × ErrCode := (forest R.cc.lastSexp, R.cc.error)

end Elements

section Calls

variable {g : Setup} {chunk : List Byte}

end Calls

section Clear

variable {r : Reader} {c : Byte} {w : List Byte}

end Clear

end Sfsexp.Proofs
