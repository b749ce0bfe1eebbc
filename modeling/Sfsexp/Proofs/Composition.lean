import Sfsexp.Proofs.Stability
import Sfsexp.Spec.Composition

/-!
# Elements in a list

An element is read the same whatever stands behind it. In a list it is read as by itself unless the
elements in front of it left the escape flag set and its first token looks at the flag.
-/

namespace Sfsexp.Proofs

open Sfsexp Spec

section Append

variable {esc e inString : Bool} {text r v w rest t : List Byte} {c : Byte} {x : Tree}

lemma bareEnd_append (h : bareEnd esc text w = some (r, e, rest)) :
    bareEnd esc text (w ++ t) = some (r, e, rest ++ t) := by
  induction w generalizing esc text with
  | nil => cases h
  | cons c w ih =>
    unfold bareEnd at h
    rw [List.cons_append, bareEnd]
    split_ifs at h ⊢
    · exact ih h
    · exact ih h
    · cases h
      rfl

lemma quotedEnd_append (h : quotedEnd esc text w = some (r, rest)) :
    quotedEnd esc text (w ++ t) = some (r, rest ++ t) := by
  induction w generalizing esc text with
  | nil => cases h
  | cons c w ih =>
    unfold quotedEnd at h
    rw [List.cons_append, quotedEnd]
    split_ifs at h ⊢
    · exact ih h
    · cases h
      rfl
    · exact ih h

lemma listEnd_append {depth : Int} (h : listEnd inString esc depth text w = some (r, rest)) :
    listEnd inString esc depth text (w ++ t) = some (r, rest ++ t) := by
  induction w generalizing esc text inString depth with
  | nil => cases h
  | cons c w ih =>
    unfold listEnd at h
    rw [List.cons_append, listEnd]
    split_ifs at h ⊢
    · cases h
      rfl
    · exact ih h

lemma nextTick_append (h : nextTick esc w = some (x, e, rest)) :
    nextTick esc (w ++ t) = some (x, e, rest ++ t) := by
  cases w with
  | nil => cases h
  | cons c w =>
    unfold nextTick at h
    rw [List.cons_append, nextTick]
    dsimp only at h
    split_ifs at h ⊢
    · obtain ⟨⟨u, rest'⟩, hread, heq⟩ := Option.map_eq_some_iff.mp h
      cases heq
      rw [quotedEnd_append hread]
      rfl
    · obtain ⟨⟨u, rest'⟩, hread, heq⟩ := Option.map_eq_some_iff.mp h
      cases heq
      rw [← List.cons_append, listEnd_append hread]
      rfl
    · obtain ⟨⟨u, e', rest'⟩, hread, heq⟩ := Option.map_eq_some_iff.mp h
      cases heq
      rw [← List.cons_append, bareEnd_append hread]
      rfl

lemma nextAtom_append (h : nextAtom esc c w = some (x, e, rest)) :
    nextAtom esc c (w ++ t) = some (x, e, rest ++ t) := by
  unfold nextAtom at h ⊢
  split_ifs at h ⊢
  · obtain ⟨⟨u, rest'⟩, hread, heq⟩ := Option.map_eq_some_iff.mp h
    cases heq
    rw [quotedEnd_append hread]
    rfl
  · exact nextTick_append h
  · obtain ⟨⟨u, e', rest'⟩, hread, heq⟩ := Option.map_eq_some_iff.mp h
    cases heq
    rw [bareEnd_append hread]
    rfl

mutual
lemma skipGap_append (w t : List Byte) (hne : skipGap w ≠ []) : skipGap (w ++ t) = skipGap w ++ t := by
  match w with
  | [] => exact absurd rfl hne
  | c :: w =>
    unfold skipGap at hne
    rw [List.cons_append, skipGap, skipGap]
    split_ifs at hne ⊢
    · exact skipGap_append w t hne
    · exact skipComment_append w t hne
    · rfl

lemma skipComment_append (w t : List Byte) (hne : skipComment w ≠ []) :
    skipComment (w ++ t) = skipComment w ++ t := by
  match w with
  | [] => exact absurd rfl hne
  | c :: w =>
    unfold skipComment at hne
    rw [List.cons_append, skipComment, skipComment]
    split_ifs at hne ⊢
    · exact skipGap_append w t hne
    · exact skipComment_append w t hne
end

lemma skipGap_cons_append (h : skipGap w = c :: v) : skipGap (w ++ t) = c :: (v ++ t) := by
  rw [skipGap_append w t (by simp [h]), h, List.cons_append]

mutual
/-- What stands behind an element does not change how it is read. -/
lemma element_append {esc e : Bool} {w rest : List Byte} {x : Tree} (h : Element esc w x e rest)
    (t : List Byte) : Element esc (w ++ t) x e (rest ++ t) := by
  match h with
  | .atom hgap hl hr hatom => exact .atom (skipGap_cons_append hgap) hl hr (nextAtom_append hatom)
  | .list hgap hall => exact .list (skipGap_cons_append hgap) (elements_append hall t)

lemma elements_append {esc e : Bool} {w rest : List Byte} {T : List Tree}
    (h : Elements esc w T e rest) (t : List Byte) : Elements esc (w ++ t) T e (rest ++ t) := by
  match h with
  | .nil hgap => exact .nil (skipGap_cons_append hgap)
  | .cons hone hall => exact .cons (element_append hone t) (elements_append hall t)
end

end Append

section Flags

variable {esc e : Bool} {text r v w rest : List Byte} {c : Byte} {x : Tree}

lemma flagBehind_false {own : Bool} : flagBehind false own x = own := if_neg fun h => by cases h.1

lemma flagBehind_full {own : Bool} (h : ¬ Flagless x) : flagBehind esc own x = own :=
  if_neg fun hx => h hx.2

lemma flagBehind_flagless {own : Bool} (h : Flagless x) : flagBehind true own x = true :=
  if_pos ⟨rfl, h⟩

lemma bareEnd_length (h : bareEnd esc text w = some (r, e, rest)) : text.length ≤ r.length := by
  induction w generalizing esc text with
  | nil => cases h
  | cons c w ih =>
    unfold bareEnd at h
    split_ifs at h with he hnil
    · have hlen := ih h
      have hpos := List.length_pos_iff.mpr hnil
      rw [List.length_append, List.length_dropLast, List.length_singleton] at hlen
      omega
    · have hlen := ih h
      rw [List.length_append] at hlen
      omega
    · cases h
      exact Nat.le_refl _

/-- The text of a bare atom behind an apostrophe is empty when no legal byte follows. -/
lemma bareEnd_empty (ha : isAtomByte c = false) (he : isEscapable c = false) :
    bareEnd esc [] (c :: w) = some ([], esc, c :: w) := by
  rw [bareEnd, he, ha, Bool.and_false]
  rfl

lemma tick_ne_nil (h : nextTick esc w = some (x, e, rest)) : w ≠ [] := by
  rintro rfl
  cases h

lemma quotedEnd_ne_nil (h : quotedEnd esc text w = some (r, rest)) : w ≠ [] := by
  rintro rfl
  cases h

/-- Behind an apostrophe the flag does not matter if the next byte cannot be escaped. -/
lemma nextTick_insensitive (hgap : skipGap w = tick :: v) (hs : ¬ Sensitive w)
    (h : nextTick false v = some (x, e, rest)) :
    nextTick true v = some (x, flagBehind true e x, rest) ∧
      (Flagless x → e = false ∧ ¬ Sensitive rest) := by
  obtain ⟨d, v, rfl⟩ := List.exists_cons_of_ne_nil (tick_ne_nil h)
  unfold nextTick at h ⊢
  dsimp only at h ⊢
  by_cases hd : d = dquote
  · subst hd
    rw [if_pos rfl] at h ⊢
    obtain ⟨⟨r, rest'⟩, hread, heq⟩ := Option.map_eq_some_iff.mp h
    cases heq
    obtain ⟨b, v, rfl⟩ := List.exists_cons_of_ne_nil (quotedEnd_ne_nil hread)
    have hb : isEscapable b = false := by
      by_contra hb
      exact hs (.string hgap (by simpa using hb))
    have hfull : ¬ Flagless (.atom .squote (r ++ [dquote])) := by
      intro hempty
      simpa using hempty.2
    rw [quotedEnd_flag hb, hread, flagBehind_full hfull]
    exact ⟨rfl, fun hempty => absurd hempty hfull⟩
  · have he : isEscapable d = false := by
      by_contra he
      exact hs (.tick hgap hd (by simpa using he))
    have hl : d ≠ lparen := by
      rintro rfl
      cases he
    rw [if_neg hd, if_neg hl] at h ⊢
    obtain ⟨⟨r, e', rest'⟩, hread, heq⟩ := Option.map_eq_some_iff.mp h
    cases heq
    by_cases ha : isAtomByte d = true
    · have hlen : r ≠ [] := by
        rw [bareEnd, Bool.false_and, if_neg Bool.false_ne_true, if_pos ha] at hread
        have hlen := bareEnd_length hread
        rintro rfl
        simp at hlen
      have hfull : ¬ Flagless (.atom .squote r) := fun hempty => hlen hempty.2
      rw [bareEnd_flag he ha, hread, flagBehind_full hfull]
      exact ⟨rfl, fun hempty => absurd hempty hfull⟩
    · have ha' : isAtomByte d = false := by simpa using ha
      rw [bareEnd_empty ha' he] at hread ⊢
      cases hread
      have hempty : Flagless (.atom .squote []) := ⟨rfl, rfl⟩
      rw [flagBehind_flagless hempty]
      exact ⟨rfl, fun _ => ⟨rfl, fun hrest => hs (.empty hgap ha' he hrest)⟩⟩

lemma nextAtom_insensitive (hgap : skipGap w = c :: v) (hs : ¬ Sensitive w)
    (h : nextAtom false c v = some (x, e, rest)) :
    nextAtom true c v = some (x, flagBehind true e x, rest) ∧
      (Flagless x → e = false ∧ ¬ Sensitive rest) := by
  unfold nextAtom at h ⊢
  split_ifs at h ⊢ with hd ht
  · subst hd
    obtain ⟨⟨r, rest'⟩, hread, heq⟩ := Option.map_eq_some_iff.mp h
    cases heq
    obtain ⟨b, v, rfl⟩ := List.exists_cons_of_ne_nil (quotedEnd_ne_nil hread)
    have hb : isEscapable b = false := by
      by_contra hb
      exact hs (.dquote hgap (by simpa using hb))
    have hfull : ¬ Flagless (.atom .dquote r) := fun hempty => absurd hempty.1 (by decide)
    rw [quotedEnd_flag hb, hread, flagBehind_full hfull]
    exact ⟨rfl, fun hempty => absurd hempty hfull⟩
  · subst ht
    exact nextTick_insensitive hgap hs h
  · obtain ⟨⟨r, e', rest'⟩, hread, heq⟩ := Option.map_eq_some_iff.mp h
    cases heq
    have hfull : ¬ Flagless (.atom .basic r) := fun hempty => absurd hempty.1 (by decide)
    rw [hread, flagBehind_full hfull]
    exact ⟨rfl, fun hempty => absurd hempty hfull⟩

mutual
/-- A set flag does not change an element whose first token does not look at it. -/
lemma element_insensitive {esc e : Bool} {w rest : List Byte} {x : Tree}
    (h : Element esc w x e rest) (hesc : esc = false) (hs : ¬ Sensitive w) :
    Element true w x (flagBehind true e x) rest ∧ (Flagless x → e = false ∧ ¬ Sensitive rest) := by
  match h with
  | .atom hgap hl hr hatom =>
    subst hesc
    obtain ⟨hread, hkeep⟩ := nextAtom_insensitive hgap hs hatom
    exact ⟨.atom hgap hl hr hread, hkeep⟩
  | .list hgap hall =>
    have hs' := fun hv => hs (.paren hgap (.inl rfl) hv)
    obtain ⟨hread, hkeep⟩ := elements_insensitive hall hesc hs'
    exact ⟨.list hgap hread, hkeep⟩

lemma elements_insensitive {esc e : Bool} {w rest : List Byte} {T : List Tree}
    (h : Elements esc w T e rest) (hesc : esc = false) (hs : ¬ Sensitive w) :
    Elements true w T (flagBehind true e (.list T)) rest ∧
      (FlaglessAll T → e = false ∧ ¬ Sensitive rest) := by
  match h with
  | .nil hgap =>
    have hs' := fun hv => hs (.paren hgap (.inr rfl) hv)
    exact ⟨.nil hgap, fun _ => ⟨hesc, hs'⟩⟩
  | @Elements.cons _ e₁ _ _ _ _ x T hone hall =>
    obtain ⟨hread, hkeep⟩ := element_insensitive hone hesc hs
    by_cases hx : Flagless x
    · obtain ⟨rfl, hs'⟩ := hkeep hx
      obtain ⟨hreadAll, hkeepAll⟩ := elements_insensitive hall rfl hs'
      rw [flagBehind_flagless hx] at hread
      have hflag : flagBehind true e (.list T) = flagBehind true e (.list (x :: T)) := by
        unfold flagBehind
        simp only [Flagless, FlaglessAll, hx, true_and]
      exact ⟨.cons hread (hflag ▸ hreadAll), fun hall => hkeepAll hall.2⟩
    · rw [flagBehind_full hx] at hread
      have hflag : flagBehind true e (.list (x :: T)) = e := flagBehind_full fun hall => hx hall.1
      rw [hflag]
      exact ⟨.cons hread hall, fun hall => absurd hall.1 hx⟩
end

end Flags

section Clash

variable {esc e : Bool} {text r u v w rest t e' : List Byte} {b c : Byte}

/-- A text of two bytes or more keeps its first byte. -/
lemma quotedEnd_keeps (hu : u ≠ []) (h : quotedEnd esc (b :: u) w = some (r, rest)) :
    ∃ u', u' ≠ [] ∧ r = b :: u' := by
  induction w generalizing esc u with
  | nil => cases h
  | cons c w ih =>
    unfold quotedEnd at h
    split_ifs at h with he hd
    · rw [List.dropLast_cons_of_ne_nil hu, List.cons_append] at h
      exact ih (by simp) h
    · cases h
      exact ⟨u, hu, rfl⟩
    · rw [List.cons_append] at h
      exact ih (by simp) h

/-- A text of one byte stays as it is only if it ends there. -/
lemma quotedEnd_first (h : quotedEnd false [b] w = some (r, rest)) :
    (∃ u, u ≠ [] ∧ r = b :: u) ∨ (r = [b] ∧ w = dquote :: rest) := by
  cases w with
  | nil => cases h
  | cons c w =>
    unfold quotedEnd at h
    rw [Bool.false_and, if_neg Bool.false_ne_true] at h
    split_ifs at h with hd
    · cases h
      exact .inr ⟨rfl, by rw [hd]⟩
    · exact .inl (quotedEnd_keeps (u := [c]) (List.cons_ne_nil c []) h)

/-- A set flag takes the opening double quote away from a quoted string. -/
lemma string_differs (he : isEscapable c = true) (hv : c = dquote → v.head? ≠ some dquote)
    (h : quotedEnd false [dquote] (c :: v) = some (r, rest))
    (h' : quotedEnd true [dquote] (c :: v) = some (r, e')) : False := by
  have hother : quotedEnd false [c] v = some (r, e') := by
    rw [quotedEnd, he, Bool.and_self, if_pos rfl, if_neg (List.cons_ne_nil _ _)] at h'
    exact h'
  rw [quotedEnd, Bool.false_and, if_neg Bool.false_ne_true] at h
  split_ifs at h with hd
  · cases h
    subst hd
    rcases quotedEnd_first hother with ⟨u, hu, hr⟩ | ⟨-, hend⟩
    · exact hu (List.cons.inj hr).2.symm
    · exact hv rfl (by rw [hend]; rfl)
  · obtain ⟨u, hu, rfl⟩ := quotedEnd_keeps (u := [c]) (List.cons_ne_nil c []) h
    rcases quotedEnd_first hother with ⟨u', -, hr⟩ | ⟨hr, -⟩
    · exact hd (List.cons.inj hr).1.symm
    · exact hd (List.cons.inj hr).1.symm

lemma listEnd_length {inString : Bool} {depth : Int}
    (h : listEnd inString esc depth text w = some (r, rest)) : text.length < r.length := by
  induction w generalizing esc text inString depth with
  | nil => cases h
  | cons c w ih =>
    unfold listEnd at h
    split_ifs at h
    · cases h
      simp
    · have hlen := ih h
      rw [List.length_append] at hlen
      omega

/-- From different depths a quoted list is not read to the same text. -/
lemma list_differs {inString : Bool} {d d' : Int} (hd : d ≠ d')
    (h : listEnd inString esc d text w = some (r, rest))
    (h' : listEnd inString esc d' text w = some (r, e')) : False := by
  induction w generalizing esc text inString d d' with
  | nil => cases h
  | cons c w ih =>
    unfold listEnd at h h'
    split_ifs at h h' with hend hend' hend'
    · have hone := hend.2.2.2
      have hone' := hend'.2.2.2
      omega
    · cases h
      exact absurd (listEnd_length h') (Nat.lt_irrefl _)
    · cases h'
      exact absurd (listEnd_length h) (Nat.lt_irrefl _)
    · apply ih _ h h'
      unfold parensAfter
      split_ifs <;> omega

/-- Behind an apostrophe, a set flag changes what an escapable byte starts. -/
lemma tick_differs {x : Tree} {f : Bool} (hd : c ≠ dquote) (he : isEscapable c = true)
    (h : nextTick false (c :: v) = some (x, e, rest))
    (h' : nextTick true (c :: v) = some (x, f, e')) : False := by
  unfold nextTick at h h'
  dsimp only at h h'
  rw [if_neg hd] at h h'
  split_ifs at h h' with hl
  · subst hl
    obtain ⟨⟨r, rest'⟩, hread, heq⟩ := Option.map_eq_some_iff.mp h
    cases heq
    obtain ⟨⟨r', rest'⟩, hread', heq⟩ := Option.map_eq_some_iff.mp h'
    cases heq
    have hopen : listEnd false false 1 [lparen] v = some (r, _) := hread
    have hmissed : listEnd false false 0 [lparen] v = some (r, _) := hread'
    exact list_differs (by decide) hopen hmissed
  · obtain ⟨⟨r', f', rest'⟩, hread', heq⟩ := Option.map_eq_some_iff.mp h'
    have hstray := bareEnd_stray hread'
    rw [he] at hstray
    cases hstray

/-- The four bytes that start with an empty string behind an apostrophe. -/
abbrev tripled : List Byte := [tick, dquote, dquote, dquote]

lemma nextAtom_sensitive {x : Tree} {f : Bool} (hgap : skipGap (u ++ t) = c :: v) (hl : c ≠ lparen)
    (hr : c ≠ rparen) (h : nextAtom false c v = some (x, e, rest))
    (h' : nextAtom true c v = some (x, f, e')) (hs : Sensitive u) (htriple : ¬ tripled <:+: u ++ t) :
    e = false ∧ f = true ∧ e' = rest ∧ ∃ u', rest = u' ++ t ∧ Sensitive u' ∧ u' <:+ u := by
  cases hs with
  | paren hskip hc hv =>
    exfalso
    rw [skipGap_cons_append hskip] at hgap
    rcases hc with rfl | rfl
    · exact hl (List.cons.inj hgap).1.symm
    · exact hr (List.cons.inj hgap).1.symm
  | @empty _ v₀ d hskip hatom he hv =>
    rw [skipGap_cons_append hskip] at hgap
    obtain ⟨rfl, rfl⟩ := List.cons.inj hgap
    have hd : d ≠ dquote := by
      rintro rfl
      cases he
    have hl' : d ≠ lparen := by
      rintro rfl
      cases he
    unfold nextAtom nextTick at h h'
    rw [if_neg (by decide), if_pos rfl] at h h'
    dsimp only [List.cons_append] at h h'
    rw [if_neg hd, if_neg hl', bareEnd_empty hatom he] at h h'
    cases h
    cases h'
    have hsuffix : d :: v₀ <:+ u := (skipGap_cons hskip).1
    exact ⟨rfl, rfl, rfl, d :: v₀, rfl, hv, hsuffix⟩
  | dquote hskip he =>
    exfalso
    rw [skipGap_cons_append hskip] at hgap
    obtain ⟨rfl, rfl⟩ := List.cons.inj hgap
    unfold nextAtom at h'
    rw [if_pos rfl] at h'
    obtain ⟨⟨r, rest'⟩, hread, -⟩ := Option.map_eq_some_iff.mp h'
    have hstray := quotedEnd_stray hread
    rw [he] at hstray
    cases hstray
  | tick hskip hd he =>
    exfalso
    rw [skipGap_cons_append hskip] at hgap
    obtain ⟨rfl, rfl⟩ := List.cons.inj hgap
    unfold nextAtom at h h'
    rw [if_neg (by decide), if_pos rfl] at h h'
    exact tick_differs hd he h h'
  | @string _ v₀ d hskip he =>
    exfalso
    have hskip' : skipGap (u ++ t) = tick :: (dquote :: d :: v₀ ++ t) := skipGap_cons_append hskip
    have hsuffix : tick :: (dquote :: d :: v₀ ++ t) <:+ u ++ t := hskip' ▸ skipGap_suffix (u ++ t)
    rw [hskip'] at hgap
    obtain ⟨rfl, rfl⟩ := List.cons.inj hgap
    unfold nextAtom nextTick at h h'
    rw [if_neg (by decide), if_pos rfl] at h h'
    dsimp only [List.cons_append] at h h'
    rw [if_pos rfl] at h h'
    obtain ⟨⟨r, rest'⟩, hread, heq⟩ := Option.map_eq_some_iff.mp h
    cases heq
    obtain ⟨⟨r', rest'⟩, hread', heq⟩ := Option.map_eq_some_iff.mp h'
    simp only [Prod.mk.injEq, Tree.atom.injEq, true_and, List.append_cancel_right_eq] at heq
    obtain ⟨rfl, -, rfl⟩ := heq
    refine string_differs he ?_ hread hread'
    rintro rfl hhead
    obtain ⟨z, hz⟩ := List.head?_eq_some_iff.mp hhead
    refine htriple (List.IsInfix.trans ⟨[], z, ?_⟩ hsuffix.isInfix)
    rw [List.cons_append, List.cons_append, hz]
    rfl

/-- A paren does not look at the flag. -/
lemma sensitive_paren (hgap : skipGap (u ++ t) = c :: v) (hc : c = lparen ∨ c = rparen)
    (hs : Sensitive u) : ∃ v', v = v' ++ t ∧ Sensitive v' ∧ v' <:+ u := by
  cases hs with
  | paren hskip _ hv =>
    rw [skipGap_cons_append hskip] at hgap
    obtain ⟨-, rfl⟩ := List.cons.inj hgap
    exact ⟨_, rfl, hv, (skipGap_cons hskip).1⟩
  | empty hskip _ _ _ =>
    rw [skipGap_cons_append hskip] at hgap
    obtain ⟨rfl, -⟩ := List.cons.inj hgap
    exact absurd hc (by decide)
  | dquote hskip _ =>
    rw [skipGap_cons_append hskip] at hgap
    obtain ⟨rfl, -⟩ := List.cons.inj hgap
    exact absurd hc (by decide)
  | tick hskip _ _ =>
    rw [skipGap_cons_append hskip] at hgap
    obtain ⟨rfl, -⟩ := List.cons.inj hgap
    exact absurd hc (by decide)
  | string hskip _ =>
    rw [skipGap_cons_append hskip] at hgap
    obtain ⟨rfl, -⟩ := List.cons.inj hgap
    exact absurd hc (by decide)

lemma not_infix_suffix {a v : List Byte} (h : ¬ a <:+: u ++ t) (hv : v <:+ u) : ¬ a <:+: v ++ t := by
  obtain ⟨p, rfl⟩ := hv
  intro hin
  apply h
  rw [List.append_assoc]
  exact hin.trans (List.suffix_append p (v ++ t)).isInfix

mutual
/-- If the flag does not change an element, then its first token does not look at the flag, unless
that token stands behind the element. -/
lemma element_sensitive {esc esc' e f : Bool} {u t w rest rest' : List Byte} {x : Tree}
    (h : Element esc w x e rest) (h' : Element esc' w x f rest') (hesc : esc = false)
    (hesc' : esc' = true) (hw : w = u ++ t) (hs : Sensitive u) (htriple : ¬ tripled <:+: u ++ t) :
    e = false ∧ f = true ∧ rest' = rest ∧ ∃ u', rest = u' ++ t ∧ Sensitive u' ∧ u' <:+ u := by
  match h, h' with
  | .atom hgap hl hr hatom, .atom hgap' _ _ hatom' =>
    subst hesc hesc' hw
    obtain ⟨rfl, rfl⟩ := List.cons.inj (hgap.symm.trans hgap')
    exact nextAtom_sensitive hgap hl hr hatom hatom' hs htriple
  | .atom hgap hl _ _, .list hgap' _ =>
    exact absurd (List.cons.inj (hgap.symm.trans hgap')).1 hl
  | .list hgap' _, .atom hgap hl _ _ =>
    exact absurd (List.cons.inj (hgap.symm.trans hgap')).1 hl
  | .list hgap hall, .list hgap' hall' =>
    obtain ⟨-, rfl⟩ := List.cons.inj (hgap.symm.trans hgap')
    subst hw
    obtain ⟨v, hv, hsv, hsuffix⟩ := sensitive_paren hgap (.inl rfl) hs
    obtain ⟨he, hf, hrest, u', hu', hsu', hsuffix'⟩ := elements_sensitive hall hall' hesc hesc' hv
      hsv (not_infix_suffix htriple hsuffix)
    exact ⟨he, hf, hrest, u', hu', hsu', hsuffix'.trans hsuffix⟩

lemma elements_sensitive {esc esc' e f : Bool} {u t w rest rest' : List Byte} {T : List Tree}
    (h : Elements esc w T e rest) (h' : Elements esc' w T f rest') (hesc : esc = false)
    (hesc' : esc' = true) (hw : w = u ++ t) (hs : Sensitive u) (htriple : ¬ tripled <:+: u ++ t) :
    e = false ∧ f = true ∧ rest' = rest ∧ ∃ u', rest = u' ++ t ∧ Sensitive u' ∧ u' <:+ u := by
  match h, h' with
  | .nil hgap, .nil hgap' =>
    obtain ⟨-, rfl⟩ := List.cons.inj (hgap.symm.trans hgap')
    subst hw
    obtain ⟨v, hv, hsv, hsuffix⟩ := sensitive_paren hgap (.inr rfl) hs
    exact ⟨hesc, hesc', rfl, v, hv, hsv, hsuffix⟩
  | .cons hone hall, .cons hone' hall' =>
    obtain ⟨he, hf, rfl, v, hv, hsv, hsuffix⟩ :=
      element_sensitive hone hone' hesc hesc' hw hs htriple
    obtain ⟨he', hf', hrest, u', hu', hsu', hsuffix'⟩ := elements_sensitive hall hall' he hf hv
      hsv (not_infix_suffix htriple hsuffix)
    exact ⟨he', hf', hrest, u', hu', hsu', hsuffix'.trans hsuffix⟩
end

end Clash

section Idle

variable {r r' : Reader} {c : Byte} {w : List Byte}

/-- The reader is in the middle of an expression. -/
def Busy (r : Reader) : Prop := (r.lex ≠ .gap ∧ r.lex ≠ .comment) ∨ r.levels ≠ []

lemma escape_busy {aty : Lex} (hlex : r.lex = aty) (h : r.escape c = ([], .ok r')) :
    r'.lex = aty := by
  unfold Reader.escape at h
  split at h
  · cases h
  · cases h
    exact hlex

lemma finishAtom_busy {aty : AtomT} (h : r.finishAtom aty = ([], .ok r')) : r'.levels ≠ [] := by
  unfold Reader.finishAtom at h
  split at h <;> cases h
  exact List.cons_ne_nil _ _

lemma feedGap_busy (hopen : r.levels ≠ []) (h : r.feedGap c = ([], .ok r')) : Busy r' := by
  unfold Reader.feedGap at h
  split_ifs at h
  · cases h
    exact .inr hopen
  · cases h
    exact .inr hopen
  · cases h
    exact .inr (List.cons_ne_nil _ _)
  · split at h <;> cases h
    exact .inr (List.cons_ne_nil _ _)
  · cases h
    exact .inr hopen
  · cases h
    exact .inr hopen
  · cases h
    exact .inr hopen

lemma feedBare_busy (hlex : r.lex = .bare) (h : r.feedBare c = ([], .ok r')) : Busy r' := by
  unfold Reader.feedBare at h
  split_ifs at h
  · have hbare := escape_busy hlex h
    exact .inl (by simp [hbare])
  · cases h
    exact .inl (by simp [Reader.push, hlex])
  all_goals
    generalize hfinish : r.finishAtom _ = q at h
    obtain ⟨out, e | r₁⟩ := q
    · cases h
    · obtain ⟨hout, hok⟩ := Prod.mk.inj h
      obtain ⟨rfl, hnone⟩ := List.append_eq_nil_iff.mp hout
      exact feedGap_busy (finishAtom_busy hfinish) (Prod.ext hnone hok)

lemma feedQuotedList_busy (hlex : r.lex = .quotedList) (h : r.feedQuotedList c = ([], .ok r')) :
    Busy r' := by
  unfold Reader.feedQuotedList at h
  split_ifs at h
  · cases h
    exact .inl (by simp [Reader.push, hlex])
  · cases h
    exact .inl (by simp [Reader.push, hlex])
  · exact .inr (finishAtom_busy h)
  · cases h
    exact .inl (by simp [Reader.push, hlex])
  · cases h
    exact .inl (by simp [Reader.push])
  · cases h
    exact .inl (by simp [Reader.push, hlex])

lemma feedLex_busy (hbusy : Busy r) (h : r.feedLex c = ([], .ok r')) : Busy r' := by
  unfold Reader.feedLex at h
  split at h <;> rename_i hlex
  · exact feedGap_busy (hbusy.resolve_left fun hl => hl.1 hlex) h
  · have hopen := hbusy.resolve_left fun hl => hl.2 hlex
    cases h
    right
    split_ifs <;> exact hopen
  · exact feedBare_busy hlex h
  · unfold Reader.feedQuoted at h
    split_ifs at h
    · have hquoted := @escape_busy { r with pair := true } r' c .quoted hlex h
      exact .inl (by simp [hquoted])
    · exact .inr (finishAtom_busy h)
    · exact .inr (finishAtom_busy h)
    · cases h
      exact .inl (by simp [Reader.push, hlex])
  · unfold Reader.feedTick at h
    split_ifs at h
    · cases h
      exact .inl (by simp)
    · exact @feedQuotedList_busy { r with lex := .quotedList } r' c rfl h
    · exact @feedBare_busy { r with lex := .bare, squoted := true } r' c rfl h
  · exact feedQuotedList_busy hlex h
  · unfold Reader.feedQuotedString at h
    split_ifs at h <;> cases h
    · exact .inl (by simp [Reader.push])
    · exact .inl (by simp [Reader.push, hlex])

/-- What is begun stays so until it is put out. -/
lemma feed_busy (hbusy : Busy r) (h : r.feed c = ([], .ok r')) : Busy r' :=
  @feedLex_busy { r with pair := false } r' c hbusy h

lemma scan_busy (hbusy : Busy r) (h : scan r w = ([], .ok r')) : Busy r' := by
  induction w generalizing r with
  | nil =>
    cases h
    exact hbusy
  | cons c w ih =>
    rw [scan_cons] at h
    rcases hfeed : r.feed c with ⟨out, e | r₁⟩
    · rw [hfeed] at h
      cases h
    · rw [hfeed, scanOn_ok] at h
      obtain ⟨hout, hok⟩ := Prod.mk.inj h
      obtain ⟨rfl, hnone⟩ := List.append_eq_nil_iff.mp hout
      exact ih (feed_busy hbusy hfeed) (Prod.ext hnone hok)

/-- A token that has begun keeps the reader from where it started. -/
lemma idle_of_scan (hbusy : Busy r) (h : scan r w = ([], .ok Reader.start)) : False := by
  have hstart := scan_busy hbusy h
  rcases hstart with ⟨hgap, -⟩ | hlevels
  · exact hgap rfl
  · exact hlevels rfl

lemma feed_start (hw : isWhite c = false) (hs : c ≠ semicolon) (h : Reader.start.feed c = ([], .ok r)) :
    Busy r := by
  have hgap : Reader.start.feedGap c = ([], .ok r) := h
  unfold Reader.feedGap at hgap
  split_ifs at hgap with hwhite
  · rw [hw] at hwhite
    cases hwhite
  · cases hgap
    exact .inr (List.cons_ne_nil _ _)
  · cases hgap
  · cases hgap
    exact .inl (by simp)
  · cases hgap
    exact .inl (by simp)
  · cases hgap
    exact .inl (by simp [Reader.push])

mutual
/-- What the reader reads without a trace is a gap. -/
lemma skipGap_idle (w t : List Byte) (h : scan Reader.start w = ([], .ok Reader.start)) :
    skipGap (w ++ t) = skipGap t := by
  match w with
  | [] => rfl
  | c :: w =>
    rw [List.cons_append, skipGap]
    rw [← between_nil, scan_between] at h
    split_ifs with hwhite hsemi
    · rw [gap_white hwhite, scanOn_silent] at h
      exact skipGap_idle w t h
    · rw [hsemi, gap_comment, scanOn_silent] at h
      exact skipComment_idle w t h
    · exfalso
      have hwhite' : isWhite c = false := by simpa using hwhite
      rcases hfeed : Reader.start.feed c with ⟨out, e | r⟩
      · rw [← feed_between, between_nil, hfeed] at h
        cases h
      · rw [← feed_between, between_nil, hfeed, scanOn_ok] at h
        obtain ⟨hout, hok⟩ := Prod.mk.inj h
        obtain ⟨rfl, hnone⟩ := List.append_eq_nil_iff.mp hout
        exact idle_of_scan (feed_start hwhite' hsemi hfeed) (Prod.ext hnone hok)

lemma skipComment_idle (w t : List Byte)
    (h : scan ⟨.comment, false, false, false, 0, [], []⟩ w = ([], .ok Reader.start)) :
    skipComment (w ++ t) = skipGap t := by
  match w with
  | [] => cases h
  | c :: w =>
    rw [List.cons_append, skipComment]
    rw [scan_cons] at h
    unfold Reader.feed Reader.feedLex at h
    dsimp only at h
    split_ifs at h ⊢
    · rw [scanOn_silent] at h
      exact skipGap_idle w t h
    · rw [scanOn_silent] at h
      exact skipComment_idle w t h
end

end Idle

end Sfsexp.Proofs
