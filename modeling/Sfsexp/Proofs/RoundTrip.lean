import Sfsexp.Proofs.Grammar
import Sfsexp.Proofs.ParseSexp
import Sfsexp.Proofs.Printing

/-!
# What is printed is read back

The reader takes the rendering of a readable expression for that expression, and so does
`parse_sexp`.
-/

namespace Sfsexp.Proofs

open Sfsexp Spec

section Texts

variable {text u w : List Byte} {Ls : List (List Tree)} {sq pair : Bool} {c : Byte}

/-- A byte inside double quotes that a backslash escapes. -/
lemma quoted_pair (he : isEscapable c = true) (hd : backslash ≠ dquote) :
    scan ⟨.quoted, sq, false, pair, 0, text, Ls⟩ (backslash :: c :: w) =
      scan ⟨.quoted, sq, false, true, 0, text ++ [c], Ls⟩ w := by
  have hfirst : (⟨.quoted, sq, false, pair, 0, text, Ls⟩ : Reader).feed backslash =
      ([], .ok ⟨.quoted, sq, true, false, 0, text ++ [backslash], Ls⟩) :=
    quoted_push hd (Bool.false_and _)
  have hsecond : (⟨.quoted, sq, true, false, 0, text ++ [backslash], Ls⟩ : Reader).feed c =
      ([], .ok ⟨.quoted, sq, false, true, 0, text ++ [c], Ls⟩) := by
    have hne : text ++ [backslash] ≠ [] := by simp
    have hlex : (⟨.quoted, sq, true, false, 0, text ++ [backslash], Ls⟩ : Reader).feed c =
        (⟨.quoted, sq, true, true, 0, text ++ [backslash], Ls⟩ : Reader).escape c := by
      unfold Reader.feed Reader.feedLex Reader.feedQuoted
      dsimp only
      rw [he, Bool.and_self, if_pos rfl]
    rw [hlex, escape_ne_nil hne]
    simp
  rw [scan_cons, hfirst, scanOn_silent, scan_cons, hsecond, scanOn_silent]

/-- The text of a double-quoted atom is unescaped. -/
lemma quoted_escaped (t : List Byte) :
    scan ⟨.quoted, false, false, pair, 0, text, Ls⟩ (escapeText t ++ dquote :: w) =
      scanOn (give (.atom .dquote (text ++ t)) false Ls) w := by
  induction t generalizing text pair with
  | nil =>
    rw [escapeText, List.nil_append, scan_cons, quoted_end, List.append_nil]
    rfl
  | cons c t ih =>
    rw [escapeText]
    split_ifs with hc
    · have he : isEscapable c = true := by
        rcases hc with rfl | rfl <;> rfl
      rw [List.cons_append, List.cons_append, quoted_pair he (by decide), ih]
      simp
    · obtain ⟨hd, hb⟩ := not_or.mp hc
      have hclear : (c == backslash) = false := by simpa using hb
      rw [List.cons_append, scan_cons, quoted_push hd (Bool.false_and _), scanOn_silent, hclear, ih]
      simp

/-- The byte is read inside a quoted list. -/
lemma quotedList_byte {depth : Nat} {inString : Bool} (hb : c ≠ backslash)
    (hend : ¬ (c = rparen ∧ inString = false ∧ depth = 1)) (hpos : 0 < depth) :
    scan ⟨listLex inString, sq, false, false, depth, text, Ls⟩ (c :: w) =
      scan ⟨listLex (inString ^^ (c == dquote)), sq, false, false, depthAfter depth inString c,
        text ++ [c], Ls⟩ w := by
  rw [scan_cons, quotedList_push hb hend fun _ => hpos, scanOn_silent]

lemma quotedString_run {depth : Nat} (hd : dquote ∉ u) (hb : backslash ∉ u) (hpos : 0 < depth) :
    scan ⟨.quotedString, sq, false, false, depth, text, Ls⟩ (u ++ w) =
      scan ⟨.quotedString, sq, false, false, depth, text ++ u, Ls⟩ w := by
  induction u generalizing text with
  | nil => simp
  | cons c u ih =>
    obtain ⟨hc, hb⟩ := not_or.mp (mt List.mem_cons.mpr hb)
    obtain ⟨hq, hd⟩ := not_or.mp (mt List.mem_cons.mpr hd)
    have hclear : (c == dquote) = false := by simpa using Ne.symm hq
    have hbyte := @quotedList_byte text (u ++ w) Ls sq c depth true (Ne.symm hc) (by simp) hpos
    rw [hclear] at hbyte
    rw [List.cons_append]
    refine hbyte.trans ?_
    change scan ⟨.quotedString, sq, false, false, depth, text ++ [c], Ls⟩ (u ++ w) = _
    rw [ih hd hb]
    simp

/-- A text with matching parens leaves the depth as it was. -/
lemma quotedList_balanced (hu : Balanced u) {depth : Nat} (hb : backslash ∉ u) (hpos : 0 < depth) :
    scan ⟨.quotedList, sq, false, false, depth, text, Ls⟩ (u ++ w) =
      scan ⟨.quotedList, sq, false, false, depth, text ++ u, Ls⟩ w := by
  induction hu generalizing depth text w with
  | nil => simp
  | byte c t hl hr hd ht ih =>
    obtain ⟨hc, hb⟩ := not_or.mp (mt List.mem_cons.mpr hb)
    have hclear : (c == dquote) = false := by simpa using hd
    have hafter : depthAfter depth false c = depth := by simp [depthAfter, hl, hr]
    have hbyte := @quotedList_byte text (t ++ w) Ls sq c depth false (Ne.symm hc)
      (fun h => hr h.1) hpos
    rw [hclear, hafter] at hbyte
    rw [List.cons_append]
    refine hbyte.trans ?_
    change scan ⟨.quotedList, sq, false, false, depth, text ++ [c], Ls⟩ (t ++ w) = _
    rw [ih hb hpos]
    simp
  | string v t hv ht ih =>
    simp only [List.cons_append, List.mem_cons, List.mem_append, not_or] at hb
    obtain ⟨-, hbv, -, hbt⟩ := hb
    have hopen := @quotedList_byte text (v ++ dquote :: (t ++ w)) Ls sq dquote depth false
      (by decide) (fun h => absurd h.1 (by decide)) hpos
    have hclose := @quotedList_byte (text ++ [dquote] ++ v) (t ++ w) Ls sq dquote depth true
      (by decide) (fun h => absurd h.1 (by decide)) hpos
    have hstep : scan ⟨.quotedList, sq, false, false, depth, text, Ls⟩
        ((dquote :: v ++ dquote :: t) ++ w) =
        scan ⟨.quotedList, sq, false, false, depth, text ++ [dquote] ++ v ++ [dquote], Ls⟩
          (t ++ w) := by
      rw [List.append_assoc, List.cons_append, List.cons_append]
      refine hopen.trans (Eq.trans ?_ hclose)
      exact quotedString_run hv hbv hpos
    rw [hstep, ih hbt hpos]
    simp
  | group v t hv ht ihv iht =>
    simp only [List.cons_append, List.mem_cons, List.mem_append, not_or] at hb
    obtain ⟨-, hbv, -, hbt⟩ := hb
    have hopen := @quotedList_byte text (v ++ rparen :: (t ++ w)) Ls sq lparen depth false
      (by decide) (fun h => absurd h.1 (by decide)) hpos
    have hclose := @quotedList_byte (text ++ [lparen] ++ v) (t ++ w) Ls sq rparen (depth + 1) false
      (by decide) (by omega) (Nat.succ_pos _)
    have hstep : scan ⟨.quotedList, sq, false, false, depth, text, Ls⟩
        ((lparen :: v ++ rparen :: t) ++ w) =
        scan ⟨.quotedList, sq, false, false, depth, text ++ [lparen] ++ v ++ [rparen], Ls⟩
          (t ++ w) := by
      rw [List.append_assoc, List.cons_append, List.cons_append]
      refine hopen.trans (Eq.trans ?_ hclose)
      exact ihv hbv (Nat.succ_pos _)
    rw [hstep, iht hbt hpos]
    simp

end Texts

section Render

variable {text w : List Byte} {Ls : List (List Tree)} {c : Byte}

/-- What no bare atom contains. -/
lemma atomByte_plain (h : isAtomByte c = true) :
    isWhite c = false ∧ c ≠ lparen ∧ c ≠ rparen ∧ c ≠ dquote ∧ c ≠ tick := by
  refine ⟨?_, ?_, ?_, ?_, ?_⟩
  · cases hw : isWhite c with
    | false => rfl
    | true =>
      have hcases : c = newline ∨ c = space ∨ c = tab ∨ c = carriage := by
        simpa [isWhite, or_assoc] using hw
      rcases hcases with rfl | rfl | rfl | rfl <;> exact absurd h (by decide)
  all_goals
    rintro rfl
    exact absurd h (by decide)

/-- The bytes that may stand behind an element. -/
def Delimits (c : Byte) : Prop := c = space ∨ c = newline ∨ c = rparen

lemma Delimits.plain (h : Delimits c) : isAtomByte c = false ∧ c ≠ dquote ∧ c ≠ lparen := by
  rcases h with rfl | rfl | rfl <;> decide

lemma scan_basic (h : ReadableAtom .basic text) (hc : Delimits c) :
    scan (between false Ls) (text ++ c :: w) =
      scanOn (give (.atom .basic text) false Ls) (c :: w) := by
  obtain ⟨hne, hatom, hsemi, hb⟩ := h
  obtain ⟨d, t, rfl⟩ := List.exists_cons_of_ne_nil hne
  obtain ⟨hd, hbt⟩ := not_or.mp (mt List.mem_cons.mpr hb)
  obtain ⟨hwhite, hl, hr, hq, htick⟩ := atomByte_plain (hatom d List.mem_cons_self)
  have hclear : (d == backslash) = false := by simpa using Ne.symm hd
  have hs : d ≠ semicolon := by simpa using hsemi
  have hrun := @bare_run false [d] t Ls (fun e he => hatom e (List.mem_cons_of_mem _ he)) hbt
  rw [List.cons_append, scan_between, gap_bare hwhite hs hl hr hq htick, hclear, scanOn_silent,
    scan_append, hrun, scanOn_silent, bare_end hc.plain.1 (Bool.false_and _)]
  rfl

lemma scan_squote (h : ReadableAtom .squote text) (hc : Delimits c) :
    scan (between false Ls) (tick :: text ++ c :: w) =
      scanOn (give (.atom .squote text) false Ls) (c :: w) := by
  obtain ⟨hquoted, hb, -⟩ := h
  obtain ⟨hatom, hq, hl⟩ := hc.plain
  rw [List.cons_append, scan_between, gap_tick, scanOn_silent]
  cases hquoted with
  | bare t ht =>
    have hstart : scan ⟨.tick, false, false, false, 0, [], Ls⟩ (text ++ c :: w) =
        scan ⟨.bare, true, false, false, 0, [], Ls⟩ (text ++ c :: w) := by
      cases text with
      | nil => exact tick_bare hq hl
      | cons d t =>
        obtain ⟨-, hl', -, hq', -⟩ := atomByte_plain (ht d List.mem_cons_self)
        exact tick_bare hq' hl'
    rw [hstart, scan_append, bare_run ht hb, scanOn_silent, bare_end hatom (Bool.false_and _)]
    rfl
  | string u hu =>
    simp only [List.cons_append, List.mem_cons, List.mem_append, not_or] at hb
    rw [List.append_assoc, List.singleton_append, List.cons_append, tick_string, scan_append,
      quoted_run hu hb.2.1, scanOn_silent, scan_cons, quoted_end]
    rfl
  | list u hu =>
    simp only [List.cons_append, List.mem_cons, List.mem_append, not_or] at hb
    have hbody := @quotedList_balanced [lparen] u (rparen :: c :: w) Ls false hu 1 hb.2.1 Nat.one_pos
    rw [List.append_assoc, List.cons_append, tick_list, List.singleton_append]
    refine hbody.trans ?_
    rw [Int.natCast_one, scan_cons, quotedList_end]
    rfl

/-- The rendering of an atom is read as the atom. -/
lemma scan_renderAtom {aty : AtomT} (h : ReadableAtom aty text) (hc : Delimits c) :
    scan (between false Ls) (renderAtom aty text ++ c :: w) =
      scanOn (give (.atom aty text) false Ls) (c :: w) := by
  cases aty with
  | basic => exact scan_basic h hc
  | squote => exact scan_squote h hc
  | dquote =>
    have hbody := @quoted_escaped [] (c :: w) Ls false text
    rw [renderAtom, List.append_assoc, List.cons_append, scan_between, gap_dquote, scanOn_silent,
      List.singleton_append, hbody]
    rfl
  | binary => exact absurd h id

mutual
/-- The rendering of an expression is read as the expression. -/
lemma scan_render (x : Tree) (hx : Readable x) (Ls : List (List Tree)) {c : Byte}
    (hc : Delimits c) (w : List Byte) :
    scan (between false Ls) (x.render ++ c :: w) = scanOn (give x false Ls) (c :: w) := by
  match x, hx with
  | .atom aty text, hx => exact scan_renderAtom hx hc
  | .list elems, hx =>
    rw [Tree.render, List.append_assoc, List.cons_append, scan_between, gap_open, scanOn_silent,
      List.singleton_append, scan_renderAll elems hx [] Ls (c :: w), scan_between, gap_close,
      List.nil_append]

/-- The children of a list are read one after the other. -/
lemma scan_renderAll (xs : List Tree) (hxs : ReadableAll xs) (T : List Tree)
    (Ls : List (List Tree)) (w : List Byte) :
    scan (between false (T :: Ls)) (renderAll xs ++ rparen :: w) =
      scan (between false ((T ++ xs) :: Ls)) (rparen :: w) := by
  match xs, hxs with
  | [], _ =>
    rw [renderAll, List.append_nil]
    rfl
  | [x], hxs =>
    have hlast : scan (between false (T :: Ls)) (x.render ++ rparen :: w) =
        scan (between false ((T ++ [x]) :: Ls)) (rparen :: w) :=
      scan_render x hxs.1 (T :: Ls) (.inr (.inr rfl)) w
    simpa [renderAll, separator] using hlast
  | x :: y :: xs, hxs =>
    have hfirst := scan_render x hxs.1 (T :: Ls) (.inl rfl) (renderAll (y :: xs) ++ rparen :: w)
    have hrest := scan_renderAll (y :: xs) hxs.2 (T ++ [x]) Ls w
    rw [renderAll, separator, List.append_assoc, List.append_assoc, List.singleton_append, hfirst,
      give, scanOn_silent, scan_between, gap_white rfl, scanOn_silent, hrest, List.append_assoc,
      List.singleton_append]
end

end Render

section NoNul

lemma nul_escapeText {t : List Byte} (h : nul ∉ t) : nul ∉ escapeText t := by
  induction t with
  | nil => exact h
  | cons c t ih =>
    obtain ⟨hc, ht⟩ := not_or.mp (mt List.mem_cons.mpr h)
    rw [escapeText]
    split_ifs
    · simp only [List.mem_cons, not_or]
      exact ⟨by decide, hc, ih ht⟩
    · simp only [List.mem_cons, not_or]
      exact ⟨hc, ih ht⟩

lemma nul_renderAtom {aty : AtomT} {text : List Byte} (h : ReadableAtom aty text) :
    nul ∉ renderAtom aty text := by
  cases aty with
  | basic => exact fun hin => absurd (h.2.1 nul hin) (by decide)
  | squote =>
    simpa [renderAtom, show nul ≠ tick by decide] using h.2.2
  | dquote =>
    simpa [renderAtom, show nul ≠ dquote by decide] using nul_escapeText h
  | binary => exact absurd h id

mutual
lemma nul_render (x : Tree) (hx : Readable x) : nul ∉ x.render := by
  match x, hx with
  | .atom aty text, hx => exact nul_renderAtom hx
  | .list elems, hx =>
    simpa [Tree.render, show nul ≠ lparen by decide, show nul ≠ rparen by decide] using
      nul_renderAll elems hx

lemma nul_renderAll (xs : List Tree) (hxs : ReadableAll xs) : nul ∉ renderAll xs := by
  match xs, hxs with
  | [], _ => simp [renderAll]
  | x :: xs, hxs =>
    have hx := nul_render x hxs.1
    have hrest := nul_renderAll xs hxs.2
    have hsep : nul ∉ separator xs := by
      cases xs <;> simp [separator, show nul ≠ space by decide]
    simp [renderAll, hx, hrest, hsep]
end

end NoNul

end Sfsexp.Proofs
