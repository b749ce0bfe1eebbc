import Sfsexp.Proofs.Stability

/-!
# What the reader has read

On bytes other than backslash and NUL, every element that the reader completes survives printing in
front of any delimiter. And whatever it reads, the rendering of what it completes is at most twice
as long.
-/

namespace Sfsexp.Proofs

open Sfsexp Spec Reader

mutual
/-- An expression without backslashes that survives printing, whatever delimits it. -/
def Lasting : Tree → Prop
  | .atom aty text => backslash ∉ text ∧ ∀ next, Delimits next → StableAtom false aty text next
  | .binary _ => False
  | .list elems => LastingAll elems

def LastingAll : List Tree → Prop
  | [] => True
  | x :: xs => Lasting x ∧ LastingAll xs
end

section Lasting

variable {text : List Byte} {xs ys : List Tree} {next : Byte}

lemma lastingAll_append : LastingAll (xs ++ ys) ↔ LastingAll xs ∧ LastingAll ys := by
  induction xs with
  | nil => simp [LastingAll]
  | cons x xs ih => simp only [List.cons_append, LastingAll, ih, and_assoc]

lemma unescaped_of_plain (h : backslash ∉ text) : Unescaped false (text ++ [next]) := by
  induction text with
  | nil => exact ⟨rfl, trivial⟩
  | cons c text ih =>
    obtain ⟨hc, hrest⟩ := not_or.mp (mt List.mem_cons.mpr h)
    have hclear : (c == backslash) = false := by simpa using Ne.symm hc
    refine ⟨rfl, ?_⟩
    rw [hclear]
    exact ih hrest

lemma flagAfter_of_plain (h : backslash ∉ text) : flagAfter false text = false := by
  induction text with
  | nil => rfl
  | cons c text ih =>
    obtain ⟨hc, hrest⟩ := not_or.mp (mt List.mem_cons.mpr h)
    have hclear : (c == backslash) = false := by simpa using Ne.symm hc
    rw [flagAfter, hclear]
    exact ih hrest

lemma nextByte_delimits (xs : List Tree) : Delimits (nextByte xs) := by
  cases xs with
  | nil => exact .inr (.inr rfl)
  | cons x xs => exact .inl rfl

mutual
lemma stable_of_lasting (x : Tree) (h : Lasting x) {next : Byte} (hnext : Delimits next) :
    Stable false x next ∧ flagOf false x = false := by
  match x, h with
  | .atom aty text, ⟨hplain, hstable⟩ =>
    refine ⟨hstable next hnext, ?_⟩
    rw [flagOf]
    split_ifs
    · rfl
    · exact flagAfter_of_plain hplain
  | .list elems, h => exact stableAll_of_lasting elems h

lemma stableAll_of_lasting (xs : List Tree) (h : LastingAll xs) :
    StableAll false xs ∧ flagOfAll false xs = false := by
  match xs, h with
  | [], _ => exact ⟨trivial, rfl⟩
  | x :: xs, h =>
    obtain ⟨hx, hflag⟩ := stable_of_lasting x h.1 (nextByte_delimits xs)
    obtain ⟨hxs, hflags⟩ := stableAll_of_lasting xs h.2
    rw [StableAll, flagOfAll, hflag]
    exact ⟨⟨hx, hxs⟩, hflags⟩
end

/-- An expression that is printed with a space behind it is read back. -/
lemma scan_lasting {x : Tree} (h : Lasting x) (T : List Tree) (Ls : List (List Tree)) (w : List Byte) :
    scan (between false (T :: Ls)) (x.render ++ space :: w) =
      scan (between false ((T ++ [x]) :: Ls)) w := by
  obtain ⟨hstable, hflag⟩ := stable_of_lasting x h (.inl rfl)
  have hread := scan_element (element_of_stable x (.inl rfl) hstable w) (T :: Ls)
  rw [hread, hflag, give, scanOn_silent, scan_between, gap_white rfl, scanOn_silent]

end Lasting

section Plain

variable {r r' : Reader} {c : Byte}

/-- The text of the current token, by what the reader is in the middle of. -/
def TokenText (r : Reader) : Prop :=
  match r.lex with
  | .gap | .comment | .tick => r.squoted = false ∧ r.qdepth = 0 ∧ r.text = []
  | .bare => r.qdepth = 0 ∧
      ((r.squoted = true ∧ ∀ d ∈ r.text, isAtomByte d = true) ∨
        (r.squoted = false ∧ ∃ c u, r.text = c :: u ∧ StartsBare c ∧ ∀ d ∈ u, isAtomByte d = true))
  | .quoted => r.qdepth = 0 ∧ (r.squoted = true → ∃ u, r.text = dquote :: u ∧ dquote ∉ u)
  | .quotedList => r.squoted = false ∧ (∃ v, r.text = lparen :: v) ∧
      ∀ w, listEnd false false 0 [] (r.text ++ w) = listEnd false false r.qdepth r.text w
  | .quotedString => r.squoted = false ∧ (∃ v, r.text = lparen :: v) ∧
      ∀ w, listEnd false false 0 [] (r.text ++ w) = listEnd true false r.qdepth r.text w

/-- The state of the reader on a text without a backslash. -/
structure Unescaping (r : Reader) : Prop where
  esc : r.esc = false
  levels : ∀ T ∈ r.levels, LastingAll T
  plain : backslash ∉ r.text
  token : TokenText r

lemma unescaping_start : Unescaping Reader.start := by
  refine ⟨rfl, ?_, List.not_mem_nil, rfl, rfl, rfl⟩
  intro T hT
  cases hT

/-- A byte is put behind the token. -/
lemma unescaping_push (hlevels : ∀ T ∈ r.levels, LastingAll T) (hplain : backslash ∉ r.text)
    (hb : c ≠ backslash) {lex : Lex} {squoted : Bool} {qdepth : Int} {text : List Byte} {pair : Bool}
    (htext : text = r.text ++ [c])
    (htoken : TokenText ⟨lex, squoted, false, pair, qdepth, text, r.levels⟩) :
    Unescaping ⟨lex, squoted, c == backslash, pair, qdepth, text, r.levels⟩ := by
  have hclear : (c == backslash) = false := by simpa using hb
  rw [hclear]
  refine ⟨rfl, hlevels, ?_, htoken⟩
  simpa [htext] using ⟨hplain, Ne.symm hb⟩

/-- The end of a token inside a list. -/
lemma finish_unescaping (hesc : r.esc = false) (hlevels : ∀ T ∈ r.levels, LastingAll T) {aty : AtomT}
    (hatom : Lasting (.atom aty r.text)) (hq : r.qdepth = 0)
    (hfin : r.finishAtom aty = ([], .ok r')) : Unescaping r' ∧ r'.lex = .gap := by
  rw [finishAtom] at hfin
  cases hl : r.levels with
  | nil =>
    rw [hl] at hfin
    cases hfin
  | cons T Ls =>
    rw [hl] at hfin hlevels
    cases hfin
    obtain ⟨hT, hLs⟩ := List.forall_mem_cons.mp hlevels
    refine ⟨⟨hesc, ?_, List.not_mem_nil, rfl, hq, rfl⟩, rfl⟩
    exact List.forall_mem_cons.mpr ⟨lastingAll_append.mpr ⟨hT, hatom, trivial⟩, hLs⟩

/-- The texts behind an apostrophe. -/
lemma stableSquote_bare {text : List Byte} {next : Byte} (hall : ∀ d ∈ text, isAtomByte d = true)
    (hplain : backslash ∉ text) : StableSquote false text next := by
  cases text with
  | nil => exact Bool.false_and _
  | cons d u =>
    obtain ⟨-, hl, -, hd, -⟩ := atomByte_plain (hall d List.mem_cons_self)
    rw [StableSquote, if_neg hd, if_neg hl]
    exact ⟨hall, unescaped_of_plain hplain⟩

lemma stableSquote_string {u : List Byte} {next : Byte} (hu : dquote ∉ u) (hplain : backslash ∉ u) :
    StableSquote false (dquote :: u ++ [dquote]) next := by
  rw [List.cons_append, StableSquote, if_pos rfl]
  exact ⟨u, rfl, hu, unescaped_of_plain hplain⟩

lemma stableSquote_list {v : List Byte} {next : Byte}
    (hend : listEnd false false 0 [] (lparen :: v) = some (lparen :: v, [])) :
    StableSquote false (lparen :: v) next := by
  rw [StableSquote, if_neg (by decide), if_pos rfl]
  exact hend

lemma unescaping_gap (h : Unescaping r) (hlex : r.lex = .gap) (hb : c ≠ backslash)
    (hfeed : r.feedGap c = ([], .ok r')) : Unescaping r' := by
  obtain ⟨hsq, hq, htext⟩ : r.squoted = false ∧ r.qdepth = 0 ∧ r.text = [] := by
    have htoken := h.token
    rwa [TokenText, hlex] at htoken
  rw [feedGap] at hfeed
  split_ifs at hfeed with h1 h2 h3 h4 h5 h6
  · cases hfeed
    exact h
  · cases hfeed
    exact ⟨h.esc, h.levels, h.plain, hsq, hq, htext⟩
  · cases hfeed
    refine ⟨h.esc, List.forall_mem_cons.mpr ⟨trivial, h.levels⟩, h.plain, ?_⟩
    simp [TokenText, hlex, hsq, hq, htext]
  · cases hl : r.levels with
    | nil =>
      rw [hl] at hfeed
      cases hfeed
    | cons T Ls =>
      have hlevels := h.levels
      rw [hl] at hlevels hfeed
      cases Ls with
      | nil => cases hfeed
      | cons T' Ls =>
        cases hfeed
        obtain ⟨hT, hrest⟩ := List.forall_mem_cons.mp hlevels
        obtain ⟨hT', hLs⟩ := List.forall_mem_cons.mp hrest
        refine ⟨h.esc, ?_, h.plain, ?_⟩
        · exact List.forall_mem_cons.mpr ⟨lastingAll_append.mpr ⟨hT', hT, trivial⟩, hLs⟩
        · simp [TokenText, hlex, hsq, hq, htext]
  · cases hfeed
    refine ⟨h.esc, h.levels, h.plain, hq, ?_⟩
    intro hsq'
    rw [hsq] at hsq'
    cases hsq'
  · cases hfeed
    exact ⟨h.esc, h.levels, h.plain, hsq, hq, htext⟩
  · cases hfeed
    refine unescaping_push h.levels h.plain hb rfl ⟨hq, .inr ⟨hsq, c, [], by rw [htext]; rfl, ?_, ?_⟩⟩
    · exact ⟨by simpa using h1, h2, h3, h4, h5, h6⟩
    · intro d hd
      cases hd

lemma unescaping_bare (h : Unescaping r) (hlex : r.lex = .bare) (hb : c ≠ backslash)
    (hfeed : r.feedBare c = ([], .ok r')) : Unescaping r' := by
  obtain ⟨hq, hkind⟩ : r.qdepth = 0 ∧
      ((r.squoted = true ∧ ∀ d ∈ r.text, isAtomByte d = true) ∨
        (r.squoted = false ∧ ∃ c u, r.text = c :: u ∧ StartsBare c ∧
          ∀ d ∈ u, isAtomByte d = true)) := by
    have htoken := h.token
    rwa [TokenText, hlex] at htoken
  rw [feedBare, h.esc, Bool.false_and, if_neg Bool.false_ne_true] at hfeed
  by_cases hatom : isAtomByte c = true
  · have hmore : ∀ u : List Byte, (∀ d ∈ u, isAtomByte d = true) →
        ∀ d ∈ u ++ [c], isAtomByte d = true := by
      intro u hu d hd
      rcases List.mem_append.mp hd with hd | hd
      · exact hu d hd
      · obtain rfl := List.mem_singleton.mp hd
        exact hatom
    rw [if_pos hatom] at hfeed
    cases hfeed
    refine unescaping_push h.levels h.plain hb rfl ?_
    rw [TokenText, hlex]
    refine ⟨hq, ?_⟩
    rcases hkind with ⟨hsq, hall⟩ | ⟨hsq, d, u, htext, hd, hu⟩
    · exact .inl ⟨hsq, hmore _ hall⟩
    · exact .inr ⟨hsq, d, u ++ [c], by rw [htext]; rfl, hd, hmore u hu⟩
  · rw [if_neg hatom] at hfeed
    have hread : Lasting (.atom (if r.squoted then .squote else .basic) r.text) := by
      refine ⟨h.plain, fun next hnext => ?_⟩
      rcases hkind with ⟨hsq, hall⟩ | ⟨hsq, d, u, htext, hd, hu⟩
      · rw [hsq, if_pos rfl]
        exact stableSquote_bare hall h.plain
      · have hplain := h.plain
        rw [hsq, if_neg Bool.false_ne_true]
        rw [htext] at hplain
        obtain ⟨hd', hu'⟩ := not_or.mp (mt List.mem_cons.mpr hplain)
        refine ⟨d, u, htext, hd, hu, ?_⟩
        have hclear : (d == backslash) = false := by simpa using Ne.symm hd'
        rw [hclear]
        exact unescaped_of_plain hu'
    cases hfin : r.finishAtom (if r.squoted then .squote else .basic) with | mk out next => ?_
    rw [hfin] at hfeed
    cases next with
    | error e => cases hfeed
    | ok r₁ =>
      obtain ⟨hout, hgap⟩ := Prod.mk.inj hfeed
      obtain ⟨rfl, hnone⟩ := List.append_eq_nil_iff.mp hout
      obtain ⟨h₁, hlex₁⟩ := finish_unescaping h.esc h.levels hread hq hfin
      exact unescaping_gap h₁ hlex₁ hb (Prod.ext hnone hgap)

lemma unescaping_quoted (h : Unescaping r) (hlex : r.lex = .quoted) (hb : c ≠ backslash)
    (hfeed : r.feedQuoted c = ([], .ok r')) : Unescaping r' := by
  obtain ⟨hq, hopen⟩ : r.qdepth = 0 ∧
      (r.squoted = true → ∃ u, r.text = dquote :: u ∧ dquote ∉ u) := by
    have htoken := h.token
    rwa [TokenText, hlex] at htoken
  rw [feedQuoted, h.esc, Bool.false_and, if_neg Bool.false_ne_true] at hfeed
  by_cases hc : c = dquote
  · rw [if_pos hc] at hfeed
    cases hsq : r.squoted with
    | true =>
      rw [hsq, if_pos rfl] at hfeed
      obtain ⟨u, htext, hu⟩ := hopen hsq
      have hplain := h.plain
      rw [htext] at hplain
      have hu' : backslash ∉ u := (not_or.mp (mt List.mem_cons.mpr hplain)).2
      have hatom : Lasting (.atom .squote (r.text ++ [dquote])) := by
        rw [htext]
        refine ⟨?_, fun next _ => @stableSquote_string u next hu hu'⟩
        simpa using ⟨by decide, hu', by decide⟩
      refine (finish_unescaping ?_ ?_ ?_ ?_ hfeed).1
      · rfl
      · exact h.levels
      · exact hatom
      · exact hq
    | false =>
      rw [hsq, if_neg Bool.false_ne_true] at hfeed
      have hatom : Lasting (.atom .dquote r.text) :=
        ⟨h.plain, fun next _ hset => absurd hset Bool.false_ne_true⟩
      exact (finish_unescaping h.esc h.levels hatom hq hfeed).1
  · rw [if_neg hc] at hfeed
    cases hfeed
    refine unescaping_push h.levels h.plain hb rfl ?_
    rw [TokenText, hlex]
    refine ⟨hq, fun hsq => ?_⟩
    obtain ⟨u, htext, hu⟩ := hopen hsq
    exact ⟨u ++ [c], by rw [htext]; rfl, by simpa using ⟨hu, Ne.symm hc⟩⟩

/-- One more byte of a quoted list. -/
lemma listEnd_byte {inString : Bool} {depth : Int} {text : List Byte} (hb : c ≠ backslash)
    (hrun : ∀ w, listEnd false false 0 [] (text ++ w) = listEnd inString false depth text w)
    (hmore : ¬ (inString = false ∧ c = rparen ∧ depth - 1 = 0)) (w : List Byte) :
    listEnd false false 0 [] (text ++ [c] ++ w) =
      listEnd (inString ^^ (c == dquote)) false (parensAfter inString false depth c) (text ++ [c]) w := by
  have hclear : (c == backslash) = false := by simpa using hb
  have hgo : ¬ (inString = false ∧ False = False ∧ c = rparen ∧ depth - 1 = 0) := by
    rintro ⟨h1, -, h2, h3⟩
    exact hmore ⟨h1, h2, h3⟩
  rw [List.append_assoc, hrun, List.singleton_append, listEnd, if_neg (by simpa using hmore), hclear]
  simp

lemma unescaping_quotedList (hesc : r.esc = false) (hlevels : ∀ T ∈ r.levels, LastingAll T)
    (htext : backslash ∉ r.text) (hsq : r.squoted = false)
    (hhead : r.text = [] ∧ c = lparen ∨ ∃ v, r.text = lparen :: v)
    (hrun : ∀ w, listEnd false false 0 [] (r.text ++ w) = listEnd false false r.qdepth r.text w)
    (hlex : r.lex = .quotedList) (hb : c ≠ backslash)
    (hfeed : r.feedQuotedList c = ([], .ok r')) : Unescaping r' := by
  have hhead' : ∃ v, r.text ++ [c] = lparen :: v := by
    rcases hhead with ⟨hnil, hc⟩ | ⟨v, hv⟩
    · exact ⟨[], by rw [hnil, hc]; rfl⟩
    · exact ⟨v ++ [c], by rw [hv]; rfl⟩
  rw [feedQuotedList, hesc, if_neg Bool.false_ne_true] at hfeed
  by_cases hl : c = lparen
  · rw [if_pos hl] at hfeed
    cases hfeed
    refine unescaping_push hlevels htext hb rfl ?_
    rw [TokenText, hlex]
    refine ⟨hsq, hhead', fun w => ?_⟩
    rw [listEnd_byte hb hrun (by rintro ⟨-, hr, -⟩; rw [hl] at hr; cases hr), hl]
    rfl
  · rw [if_neg hl] at hfeed
    by_cases hr : c = rparen
    · rw [if_pos hr] at hfeed
      by_cases hlast : r.qdepth - 1 = 0
      · rw [if_pos hlast] at hfeed
        have hend : listEnd false false 0 [] (r.text ++ [c]) = some (r.text ++ [c], []) := by
          rw [hrun, listEnd, if_pos ⟨rfl, rfl, hr, hlast⟩]
        obtain ⟨v, hv⟩ := hhead'
        have hplain : backslash ∉ r.text ++ [c] := by
          simpa using ⟨htext, Ne.symm hb⟩
        have hatom : Lasting (.atom .squote (r.text ++ [c])) := by
          refine ⟨hplain, fun next _ => ?_⟩
          rw [hv] at hend ⊢
          exact @stableSquote_list v next hend
        have hclear : (c == backslash) = false := by simpa using hb
        exact (finish_unescaping (r := { r with qdepth := 0 }.push c) hclear hlevels hatom rfl
          hfeed).1
      · rw [if_neg hlast] at hfeed
        cases hfeed
        refine unescaping_push hlevels htext hb rfl ?_
        rw [TokenText, hlex]
        refine ⟨hsq, hhead', fun w => ?_⟩
        rw [listEnd_byte hb hrun (fun hend => hlast hend.2.2), hr]
        rfl
    · rw [if_neg hr] at hfeed
      have hmore : ¬ (false = false ∧ c = rparen ∧ r.qdepth - 1 = 0) := fun hend => hr hend.2.1
      have hdepth : parensAfter false false r.qdepth c = r.qdepth := by
        simp [parensAfter, hl, hr]
      by_cases hd : c = dquote
      · rw [if_pos hd] at hfeed
        cases hfeed
        refine unescaping_push hlevels htext hb rfl ⟨hsq, hhead', fun w => ?_⟩
        rw [listEnd_byte hb hrun hmore, hdepth, hd]
        rfl
      · rw [if_neg hd] at hfeed
        cases hfeed
        refine unescaping_push hlevels htext hb rfl ?_
        rw [TokenText, hlex]
        have hclear : (c == dquote) = false := by simpa using hd
        refine ⟨hsq, hhead', fun w => ?_⟩
        rw [listEnd_byte hb hrun hmore, hdepth, hclear]
        rfl

lemma unescaping_quotedString (h : Unescaping r) (hlex : r.lex = .quotedString) (hb : c ≠ backslash)
    (hfeed : r.feedQuotedString c = ([], .ok r')) : Unescaping r' := by
  obtain ⟨hsq, ⟨v, htext⟩, hrun⟩ : r.squoted = false ∧ (∃ v, r.text = lparen :: v) ∧
      ∀ w, listEnd false false 0 [] (r.text ++ w) = listEnd true false r.qdepth r.text w := by
    have htoken := h.token
    rwa [TokenText, hlex] at htoken
  have hhead : ∃ v, r.text ++ [c] = lparen :: v := ⟨v ++ [c], by rw [htext]; rfl⟩
  have hbyte := fun w => listEnd_byte hb hrun (by simp) w
  rw [feedQuotedString] at hfeed
  by_cases hd : c = dquote
  · rw [if_pos ⟨hd, h.esc⟩] at hfeed
    cases hfeed
    refine unescaping_push h.levels h.plain hb rfl ⟨hsq, hhead, fun w => ?_⟩
    rw [hbyte, hd]
    rfl
  · rw [if_neg fun hboth => hd hboth.1] at hfeed
    cases hfeed
    refine unescaping_push h.levels h.plain hb rfl ?_
    rw [TokenText, hlex]
    have hclear : (c == dquote) = false := by simpa using hd
    refine ⟨hsq, hhead, fun w => ?_⟩
    rw [hbyte, hclear]
    rfl

lemma unescaping_tick (h : Unescaping r) (hlex : r.lex = .tick) (hb : c ≠ backslash)
    (hfeed : r.feedTick c = ([], .ok r')) : Unescaping r' := by
  obtain ⟨hsq, hq, htext⟩ : r.squoted = false ∧ r.qdepth = 0 ∧ r.text = [] := by
    have htoken := h.token
    rwa [TokenText, hlex] at htoken
  rw [feedTick] at hfeed
  by_cases hd : c = dquote
  · rw [if_pos hd] at hfeed
    cases hfeed
    refine ⟨h.esc, h.levels, ?_, hq, fun _ => ⟨[], rfl, List.not_mem_nil⟩⟩
    change backslash ∉ [dquote]
    decide
  · rw [if_neg hd] at hfeed
    by_cases hl : c = lparen
    · rw [if_pos hl] at hfeed
      have hrun : ∀ w, listEnd false false 0 [] (r.text ++ w) =
          listEnd false false r.qdepth r.text w := by
        intro w
        rw [hq, htext, List.nil_append]
      exact unescaping_quotedList (r := { r with lex := .quotedList }) h.esc h.levels h.plain hsq
        (.inl ⟨htext, hl⟩) hrun rfl hb hfeed
    · rw [if_neg hl] at hfeed
      refine unescaping_bare (r := { r with lex := .bare, squoted := true }) ?_ rfl hb hfeed
      refine ⟨h.esc, h.levels, h.plain, hq, .inl ⟨rfl, ?_⟩⟩
      rw [htext]
      intro d hd
      cases hd

lemma unescaping_feedLex (h : Unescaping r) (hb : c ≠ backslash)
    (hfeed : r.feedLex c = ([], .ok r')) : Unescaping r' := by
  obtain ⟨lex, squoted, esc, pair, qdepth, text, levels⟩ := r
  have htoken := h.token
  cases lex with
  | gap => exact unescaping_gap h rfl hb hfeed
  | comment =>
    rw [feedLex] at hfeed
    dsimp only at hfeed
    split_ifs at hfeed
    · cases hfeed
      exact ⟨h.esc, h.levels, h.plain, htoken⟩
    · cases hfeed
      exact h
  | bare => exact unescaping_bare h rfl hb hfeed
  | quoted => exact unescaping_quoted h rfl hb hfeed
  | tick => exact unescaping_tick h rfl hb hfeed
  | quotedList =>
    obtain ⟨hsq, hhead, hrun⟩ := htoken
    exact unescaping_quotedList h.esc h.levels h.plain hsq (.inr hhead) hrun rfl hb hfeed
  | quotedString => exact unescaping_quotedString h rfl hb hfeed

/-- A byte other than backslash. -/
lemma unescaping_feed (h : Unescaping r) (hb : c ≠ backslash) (hfeed : r.feed c = ([], .ok r')) :
    Unescaping r' := by
  have h' : Unescaping { r with pair := false } := ⟨h.esc, h.levels, h.plain, h.token⟩
  exact unescaping_feedLex h' hb hfeed

/-- A text without a backslash that completes no expression. -/
lemma unescaping_scan {w : List Byte} (h : Unescaping r) (hw : backslash ∉ w)
    (hscan : scan r w = ([], .ok r')) : Unescaping r' := by
  induction w generalizing r with
  | nil =>
    cases hscan
    exact h
  | cons c w ih =>
    obtain ⟨hc, hrest⟩ := not_or.mp (mt List.mem_cons.mpr hw)
    rw [scan_cons] at hscan
    match hfeed : r.feed c with
    | (out, .ok r₁) =>
      rw [hfeed, scanOn_ok] at hscan
      obtain ⟨hout, hrun⟩ := Prod.mk.inj hscan
      obtain ⟨rfl, hnone⟩ := List.append_eq_nil_iff.mp hout
      exact ih (unescaping_feed h (Ne.symm hc) hfeed) hrest (Prod.ext hnone hrun)
    | (out, .error e) =>
      rw [hfeed] at hscan
      cases hscan

end Plain

end Sfsexp.Proofs
