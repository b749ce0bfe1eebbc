import Sfsexp.Proofs.Grammar
import Sfsexp.Spec.Elements

/-!
# The reader in big steps

What the reader puts out on a text is what the big steps say the text starts with.
-/

namespace Sfsexp.Proofs

open Sfsexp Spec

section Tokens

variable {esc sq pair : Bool} {text w : List Byte} {Ls : List (List Tree)} {c : Byte}

/-- The reader agrees with what reading a token in one step gives. -/
def Steps (r : Reader) (w : List Byte) (Ls : List (List Tree)) :
    Option (Tree × Bool × List Byte) → Prop
  | some (x, esc, rest) => scan r w = scanOn (give x esc Ls) rest
  | none => (scan r w).1 = []

/-- The first byte leads to another state inside the token. -/
lemma Steps.cons {r r' : Reader} {o : Option (Tree × Bool × List Byte)}
    (h : r.feed c = ([], .ok r')) (hs : Steps r' w Ls o) : Steps r (c :: w) Ls o := by
  have hscan : scan r (c :: w) = scan r' w := by
    rw [scan_cons, h, scanOn_silent]
  unfold Steps
  rw [hscan]
  exact hs

lemma Steps.error {r : Reader} {e : ReadErr} (h : r.feed c = ([], .error e)) :
    Steps r (c :: w) Ls none := by
  change (scan r (c :: w)).1 = []
  rw [scan_cons, h, scanOn_error]

lemma bare_escape (he : (esc && isEscapable c) = true) :
    (⟨.bare, sq, esc, pair, 0, text, Ls⟩ : Reader).feed c =
      if text = [] then ([], .error .stray)
      else ([], .ok ⟨.bare, sq, false, false, 0, text.dropLast ++ [c], Ls⟩) := by
  have hlex : (⟨.bare, sq, esc, pair, 0, text, Ls⟩ : Reader).feed c =
      (⟨.bare, sq, esc, false, 0, text, Ls⟩ : Reader).escape c := by
    unfold Reader.feed Reader.feedLex Reader.feedBare
    dsimp only
    rw [if_pos he]
  rw [hlex]
  split_ifs with hnil
  · exact escape_nil hnil
  · exact escape_ne_nil hnil

lemma quoted_escape (he : (esc && isEscapable c) = true) :
    (⟨.quoted, sq, esc, pair, 0, text, Ls⟩ : Reader).feed c =
      if text = [] then ([], .error .stray)
      else ([], .ok ⟨.quoted, sq, false, true, 0, text.dropLast ++ [c], Ls⟩) := by
  have hlex : (⟨.quoted, sq, esc, pair, 0, text, Ls⟩ : Reader).feed c =
      (⟨.quoted, sq, esc, true, 0, text, Ls⟩ : Reader).escape c := by
    unfold Reader.feed Reader.feedLex Reader.feedQuoted
    dsimp only
    rw [if_pos he]
  rw [hlex]
  split_ifs with hnil
  · exact escape_nil hnil
  · exact escape_ne_nil hnil

lemma steps_bare (w : List Byte) :
    Steps ⟨.bare, sq, esc, false, 0, text, Ls⟩ w Ls
      ((bareEnd esc text w).map fun (u, e, rest) => (.atom (bareOf sq) u, e, rest)) := by
  induction w generalizing esc text with
  | nil => exact rfl
  | cons c w ih =>
    unfold bareEnd
    split_ifs with he hnil ha
    · exact .error ((bare_escape he).trans (if_pos hnil))
    · exact .cons ((bare_escape he).trans (if_neg hnil)) ih
    · exact .cons (bare_push ha (by simpa using he)) ih
    · exact bare_end (by simpa using ha) (by simpa using he)

lemma steps_quoted (w : List Byte) :
    Steps ⟨.quoted, sq, esc, pair, 0, text, Ls⟩ w Ls
      ((quotedEnd esc text w).map fun (u, rest) => (quotedOf sq u, false, rest)) := by
  induction w generalizing esc text pair with
  | nil => exact rfl
  | cons c w ih =>
    unfold quotedEnd
    split_ifs with he hnil hd
    · exact .error ((quoted_escape he).trans (if_pos hnil))
    · exact .cons ((quoted_escape he).trans (if_neg hnil)) ih
    · subst hd
      have hesc : esc = false := by
        cases esc with
        | false => rfl
        | true => exact absurd rfl he
      subst hesc
      exact (scan_cons _ _ _).trans (congrArg (scanOn · w) quoted_end)
    · exact .cons (quoted_push hd (by simpa using he)) ih

lemma list_end :
    (⟨.quotedList, sq, false, pair, 1, text, Ls⟩ : Reader).feed rparen =
      give (.atom .squote (text ++ [rparen])) false Ls :=
  finishAtom_give

lemma list_push {inString : Bool} {depth : Int}
    (hend : ¬ (inString = false ∧ esc = false ∧ c = rparen ∧ depth - 1 = 0)) :
    (⟨listLex inString, sq, esc, pair, depth, text, Ls⟩ : Reader).feed c =
      ([], .ok ⟨listLex (inString ^^ (c == dquote && !esc)), sq, c == backslash, false,
        parensAfter inString esc depth c, text ++ [c], Ls⟩) := by
  unfold Reader.feed Reader.feedLex
  cases inString with
  | true =>
    dsimp only [listLex]
    unfold Reader.feedQuotedString
    by_cases hd : c = dquote
    · cases esc <;> simp [hd, Reader.push, parensAfter]
    · simp [hd, Reader.push, parensAfter]
  | false =>
    dsimp only [listLex]
    unfold Reader.feedQuotedList
    cases esc with
    | true => simp [Reader.push, parensAfter]
    | false =>
      by_cases hl : c = lparen
      · subst hl
        rfl
      by_cases hr : c = rparen
      · have hzero : depth - 1 ≠ 0 := fun hz => hend ⟨rfl, rfl, hr, hz⟩
        simp [hr, hzero, Reader.push, parensAfter, show rparen ≠ lparen by decide,
          show rparen ≠ dquote by decide]
      by_cases hd : c = dquote
      · subst hd
        rfl
      · simp [hl, hr, hd, Reader.push, parensAfter]

lemma steps_list (depth : Int) {inString : Bool} (w : List Byte) :
    Steps ⟨listLex inString, sq, esc, false, depth, text, Ls⟩ w Ls
      ((listEnd inString esc depth text w).map fun (u, rest) => (.atom .squote u, false, rest)) := by
  induction w generalizing esc text inString depth with
  | nil => exact rfl
  | cons c w ih =>
    unfold listEnd
    split_ifs with hend
    · obtain ⟨rfl, rfl, rfl, hdepth⟩ := hend
      have hone : depth = 1 := by omega
      subst hone
      exact (scan_cons _ _ _).trans (congrArg (scanOn · w) list_end)
    · exact .cons (list_push hend) (ih _)

lemma steps_tick (w : List Byte) :
    Steps ⟨.tick, false, esc, false, 0, [], Ls⟩ w Ls (nextTick esc w) := by
  cases w with
  | nil => exact rfl
  | cons c w =>
    unfold nextTick
    dsimp only
    split_ifs with hd hl
    · subst hd
      exact .cons rfl (@steps_quoted esc true false [dquote] Ls w)
    · have hrest := @steps_list esc false [] Ls 0 false (c :: w)
      unfold Steps at hrest ⊢
      have hscan : scan ⟨.tick, false, esc, false, 0, [], Ls⟩ (c :: w) =
          scan ⟨.quotedList, false, esc, false, 0, [], Ls⟩ (c :: w) := by
        subst hl
        rfl
      rw [hscan]
      exact hrest
    · have hrest := @steps_bare esc true [] Ls (c :: w)
      unfold Steps at hrest ⊢
      rw [tick_bare hd hl]
      exact hrest

lemma steps_atom (hw : isWhite c = false) (hs : c ≠ semicolon) (hl : c ≠ lparen)
    (hr : c ≠ rparen) : Steps (between esc Ls) (c :: w) Ls (nextAtom esc c w) := by
  unfold nextAtom
  split_ifs with hd ht
  · subst hd
    exact .cons gap_dquote (@steps_quoted esc false false [] Ls w)
  · subst ht
    exact .cons gap_tick (steps_tick w)
  · exact .cons (gap_bare hw hs hl hr hd ht) (@steps_bare (c == backslash) false [c] Ls w)

end Tokens

section Rest

variable {esc inString : Bool} {text u w rest : List Byte} {c : Byte} {x : Tree} {e : Bool}

lemma bareEnd_suffix (h : bareEnd esc text w = some (u, e, rest)) : rest <:+ w := by
  induction w generalizing esc text with
  | nil => cases h
  | cons c w ih =>
    unfold bareEnd at h
    split_ifs at h
    · exact (ih h).trans (List.suffix_cons c w)
    · exact (ih h).trans (List.suffix_cons c w)
    · cases h
      exact List.suffix_rfl

lemma quotedEnd_suffix (h : quotedEnd esc text w = some (u, rest)) : rest <:+ w := by
  induction w generalizing esc text with
  | nil => cases h
  | cons c w ih =>
    unfold quotedEnd at h
    split_ifs at h
    · exact (ih h).trans (List.suffix_cons c w)
    · cases h
      exact List.suffix_cons _ _
    · exact (ih h).trans (List.suffix_cons c w)

lemma listEnd_suffix {depth : Int} (h : listEnd inString esc depth text w = some (u, rest)) :
    rest <:+ w := by
  induction w generalizing esc text inString depth with
  | nil => cases h
  | cons c w ih =>
    unfold listEnd at h
    split_ifs at h
    · cases h
      exact List.suffix_cons _ _
    · exact (ih h).trans (List.suffix_cons c w)

lemma nextTick_suffix (h : nextTick esc w = some (x, e, rest)) : rest <:+ w := by
  cases w with
  | nil => cases h
  | cons c w =>
    unfold nextTick at h
    dsimp only at h
    split_ifs at h
    · obtain ⟨⟨u, rest'⟩, hread, heq⟩ := Option.map_eq_some_iff.mp h
      cases heq
      exact (quotedEnd_suffix hread).trans (List.suffix_cons c w)
    · obtain ⟨⟨u, rest'⟩, hread, heq⟩ := Option.map_eq_some_iff.mp h
      cases heq
      exact listEnd_suffix hread
    · obtain ⟨⟨u, e', rest'⟩, hread, heq⟩ := Option.map_eq_some_iff.mp h
      cases heq
      exact bareEnd_suffix hread

/-- What follows an apostrophe is an atom of type `squote`. -/
lemma nextTick_squote (h : nextTick esc w = some (x, e, rest)) : ∃ r, x = .atom .squote r := by
  cases w with
  | nil => cases h
  | cons c w =>
    unfold nextTick at h
    dsimp only at h
    split_ifs at h <;>
    · obtain ⟨r, -, heq⟩ := Option.map_eq_some_iff.mp h
      cases heq
      exact ⟨_, rfl⟩

/-- The three kinds of atoms. -/
lemma nextAtom_cases (h : nextAtom esc c w = some (x, e, rest)) :
    (c = dquote ∧ ∃ r, quotedEnd esc [] w = some (r, rest) ∧ x = .atom .dquote r ∧ e = false) ∨
      (c = tick ∧ nextTick esc w = some (x, e, rest) ∧ ∃ r, x = .atom .squote r) ∨
      (c ≠ dquote ∧ c ≠ tick ∧
        ∃ r, bareEnd (c == backslash) [c] w = some (r, e, rest) ∧ x = .atom .basic r) := by
  unfold nextAtom at h
  split_ifs at h with hd ht
  · obtain ⟨⟨r, rest'⟩, hread, heq⟩ := Option.map_eq_some_iff.mp h
    cases heq
    exact .inl ⟨hd, r, hread, rfl, rfl⟩
  · exact .inr (.inl ⟨ht, h, nextTick_squote h⟩)
  · obtain ⟨⟨r, e', rest'⟩, hread, heq⟩ := Option.map_eq_some_iff.mp h
    cases heq
    exact .inr (.inr ⟨hd, ht, r, hread, rfl⟩)

lemma nextAtom_suffix (h : nextAtom esc c w = some (x, e, rest)) : rest <:+ w := by
  rcases nextAtom_cases h with ⟨-, r, hread, -, -⟩ | ⟨-, htick, -⟩ | ⟨-, -, r, hread, -⟩
  · exact quotedEnd_suffix hread
  · exact nextTick_suffix htick
  · exact bareEnd_suffix hread

end Rest

section Scan

mutual
lemma element_suffix {esc e' : Bool} {w rest : List Byte} {x : Tree}
    (h : Element esc w x e' rest) : rest <:+ w := by
  match h with
  | .atom hgap _ _ hatom => exact (nextAtom_suffix hatom).trans (skipGap_cons hgap).1
  | .list hgap hall => exact (elements_suffix hall).trans (skipGap_cons hgap).1

lemma elements_suffix {esc e' : Bool} {w rest : List Byte} {T : List Tree}
    (h : Elements esc w T e' rest) : rest <:+ w := by
  match h with
  | .nil hgap => exact (skipGap_cons hgap).1
  | .cons hone hall => exact (elements_suffix hall).trans (element_suffix hone)
end

mutual
lemma element_shorter {esc e' : Bool} {w rest : List Byte} {x : Tree}
    (h : Element esc w x e' rest) : rest.length < w.length := by
  match h with
  | .atom hgap _ _ hatom =>
    have hv := (skipGap_cons hgap).2
    have hrest := (nextAtom_suffix hatom).length_le
    omega
  | .list hgap hall =>
    have hv := (skipGap_cons hgap).2
    have hrest := elements_shorter hall
    omega

lemma elements_shorter {esc e' : Bool} {w rest : List Byte} {T : List Tree}
    (h : Elements esc w T e' rest) : rest.length < w.length := by
  match h with
  | .nil hgap => exact (skipGap_cons hgap).2
  | .cons hone hall =>
    have hfirst := element_shorter hone
    have hrest := elements_shorter hall
    omega
end

mutual
/-- The reader reads an element as the big steps do. -/
lemma scan_element {esc esc' : Bool} {w rest : List Byte} {x : Tree}
    (h : Element esc w x esc' rest) (Ls : List (List Tree)) :
    scan (between esc Ls) w = scanOn (give x esc' Ls) rest := by
  match h with
  | @Element.atom _ _ _ v _ c _ hgap hl hr hatom =>
    obtain ⟨hwhite, hsemi⟩ := skipGap_head w hgap
    have hsteps := @steps_atom esc v Ls c hwhite hsemi hl hr
    rw [hatom] at hsteps
    rw [scan_gap_cons hgap]
    exact hsteps
  | .list hgap hall =>
    have hrest := scan_elements hall [] Ls
    rw [scan_gap_cons hgap, scan_between, gap_open, scanOn_silent]
    exact hrest

lemma scan_elements {esc esc' : Bool} {w rest : List Byte} {T' : List Tree}
    (h : Elements esc w T' esc' rest) (T : List Tree) (Ls : List (List Tree)) :
    scan (between esc (T :: Ls)) w = scanOn (give (.list (T ++ T')) esc' Ls) rest := by
  match h with
  | .nil hgap => rw [scan_gap_cons hgap, scan_between, gap_close, List.append_nil]
  | @Elements.cons _ _ _ _ _ _ y _ hone hall =>
    have hfirst := scan_element hone (T :: Ls)
    have hrest := scan_elements hall (T ++ [y]) Ls
    rw [List.append_assoc] at hrest
    exact hfirst.trans hrest
end

variable {esc : Bool} {w : List Byte} {x : Tree}

/-- What the reader finds next in the text. -/
inductive Found (esc : Bool) (w : List Byte) : Prop where
  | element (x : Tree) (esc' : Bool) (rest : List Byte) (h : Element esc w x esc' rest)
  | close (v : List Byte) (h : skipGap w = rparen :: v)
  | nothing (h : ∀ Ls, (scan (between esc Ls) w).1 = [])

inductive FoundAll (esc : Bool) (w : List Byte) : Prop where
  | elements (T : List Tree) (esc' : Bool) (rest : List Byte) (h : Elements esc w T esc' rest)
  | nothing (h : ∀ T Ls, (scan (between esc (T :: Ls)) w).1 = [])

lemma found_of_rest (hall : ∀ v esc, v.length < w.length → FoundAll esc v) : Found esc w := by
  cases hgap : skipGap w with
  | nil => exact .nothing fun Ls => scan_gap_nil hgap
  | cons c v =>
    obtain ⟨hwhite, hsemi⟩ := skipGap_head w hgap
    by_cases hl : c = lparen
    · subst hl
      rcases hall v esc (skipGap_cons hgap).2 with ⟨T, esc', rest, h⟩ | h
      · exact .element _ _ _ (.list hgap h)
      · refine .nothing fun Ls => ?_
        rw [scan_gap_cons hgap, scan_between, gap_open, scanOn_silent]
        exact h [] Ls
    by_cases hr : c = rparen
    · exact .close v (hr ▸ hgap)
    cases hatom : nextAtom esc c v with
    | some r => exact .element _ _ _ (.atom hgap hl hr hatom)
    | none =>
      refine .nothing fun Ls => ?_
      have hsteps := @steps_atom esc v Ls c hwhite hsemi hl hr
      rw [hatom] at hsteps
      rw [scan_gap_cons hgap]
      exact hsteps

lemma found_both (n : Nat) :
    ∀ w esc, w.length < n → Found esc w ∧ FoundAll esc w := by
  induction n with
  | zero => exact fun w esc h => absurd h (Nat.not_lt_zero _)
  | succ n ih =>
    intro w esc hn
    have hfound : Found esc w := found_of_rest fun v esc hv => (ih v esc (by omega)).2
    refine ⟨hfound, ?_⟩
    rcases hfound with ⟨x, esc₁, v, hone⟩ | ⟨v, hgap⟩ | h
    · have hv := element_shorter hone
      rcases (ih v esc₁ (by omega)).2 with ⟨T, esc₂, rest, hall⟩ | h
      · exact .elements _ _ _ (.cons hone hall)
      · refine .nothing fun T Ls => ?_
        have hfirst := scan_element hone (T :: Ls)
        rw [hfirst]
        exact h (T ++ [x]) Ls
    · exact .elements _ _ _ (.nil hgap)
    · exact .nothing fun T Ls => h (T :: Ls)

/-- The first tree that the reader puts out on a text is the element that the text starts with. -/
lemma scan_start_iff :
    (∃ out, (scan Reader.start w).1 = x :: out) ↔ ∃ esc rest, Element false w x esc rest := by
  constructor
  · rintro ⟨out, hout⟩
    rcases (found_both (w.length + 1) w false (Nat.lt_succ_self _)).1 with
      ⟨y, esc, rest, h⟩ | ⟨v, hgap⟩ | h
    · have hscan := scan_element h []
      rw [between_nil] at hscan
      rw [hscan, give, scanOn_ok] at hout
      obtain ⟨rfl, -⟩ := List.cons.inj hout
      exact ⟨esc, rest, h⟩
    · have hscan : scan Reader.start w = ([], .error .badForm) := by
        rw [← between_nil, scan_gap_cons hgap, scan_between, gap_bad, scanOn_error]
      rw [hscan] at hout
      cases hout
    · have hnone := h []
      rw [between_nil, hout] at hnone
      cases hnone
  · rintro ⟨esc, rest, h⟩
    have hscan := scan_element h []
    rw [between_nil] at hscan
    rw [hscan, give, scanOn_ok]
    exact ⟨_, rfl⟩

end Scan

section Unique

variable {esc e : Bool} {v w rest : List Byte} {x : Tree}

lemma element_not_close (h : Element esc w x e rest) : skipGap w ≠ rparen :: v := by
  intro hclose
  cases h with
  | atom hgap _ hr _ => exact hr (List.cons.inj (hgap.symm.trans hclose)).1
  | list hgap _ => exact absurd (List.cons.inj (hgap.symm.trans hclose)).1 (by decide)

mutual
/-- A text starts with at most one element. -/
lemma element_unique {esc e₁ e₂ : Bool} {w r₁ r₂ : List Byte} {x y : Tree}
    (h₁ : Element esc w x e₁ r₁) (h₂ : Element esc w y e₂ r₂) : x = y ∧ e₁ = e₂ ∧ r₁ = r₂ := by
  match h₁, h₂ with
  | .atom hgap _ _ hatom, .atom hgap' _ _ hatom' =>
    obtain ⟨rfl, rfl⟩ := List.cons.inj (hgap.symm.trans hgap')
    simpa using hatom.symm.trans hatom'
  | .atom hgap hl _ _, .list hgap' _ =>
    exact absurd (List.cons.inj (hgap.symm.trans hgap')).1 hl
  | .list hgap' _, .atom hgap hl _ _ =>
    exact absurd (List.cons.inj (hgap.symm.trans hgap')).1 hl
  | .list hgap hall, .list hgap' hall' =>
    obtain ⟨-, rfl⟩ := List.cons.inj (hgap.symm.trans hgap')
    obtain ⟨rfl, rfl, rfl⟩ := elements_unique hall hall'
    exact ⟨rfl, rfl, rfl⟩

lemma elements_unique {esc e₁ e₂ : Bool} {w r₁ r₂ : List Byte} {T U : List Tree}
    (h₁ : Elements esc w T e₁ r₁) (h₂ : Elements esc w U e₂ r₂) : T = U ∧ e₁ = e₂ ∧ r₁ = r₂ := by
  match h₁, h₂ with
  | .nil hgap, .nil hgap' =>
    obtain ⟨-, rfl⟩ := List.cons.inj (hgap.symm.trans hgap')
    exact ⟨rfl, rfl, rfl⟩
  | .nil hgap, .cons hone _ => exact absurd hgap (element_not_close hone)
  | .cons hone _, .nil hgap => exact absurd hgap (element_not_close hone)
  | .cons hone hall, .cons hone' hall' =>
    obtain ⟨rfl, rfl, rfl⟩ := element_unique hone hone'
    obtain ⟨rfl, rfl, rfl⟩ := elements_unique hall hall'
    exact ⟨rfl, rfl, rfl⟩
end

end Unique

end Sfsexp.Proofs
