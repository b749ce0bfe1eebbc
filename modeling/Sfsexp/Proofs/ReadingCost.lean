import Sfsexp.Proofs.Reading
import Sfsexp.Spec.Rendering

/-!
# What reading costs

The elements that the reader has completed inside open lists take at most twice as many bytes to
print as were read.
-/

namespace Sfsexp.Proofs

open Sfsexp Spec Reader

/-- The bytes of the elements of a list, each with a space behind it. -/
def printedLength (xs : List Tree) : Nat := (xs.map fun x => x.render.length + 1).sum

/-- The bytes of the elements of the open lists and of their opening parens. -/
def weight (Ls : List (List Tree)) : Nat := (Ls.map fun T => printedLength T + 1).sum

/-- What the marks of the current token cost: its apostrophe or its opening double quote. -/
def markCost (r : Reader) : Nat :=
  match r.lex with
  | .gap | .comment => 0
  | .bare => if r.squoted then 2 else 0
  | _ => 2

/-- What the reader may have read, at two for each byte. -/
def price (r : Reader) : Nat := weight r.levels + 2 * r.text.length + markCost r

/-- Between tokens the reader keeps no text, and a bare token has one. -/
structure Tidy (r : Reader) : Prop where
  blank : r.lex = .gap ∨ r.lex = .comment ∨ r.lex = .tick → r.text = [] ∧ r.squoted = false
  bare : r.lex = .bare → r.squoted = false → r.text ≠ []

section Lengths

variable {T T' : List Tree} {Ls : List (List Tree)}

lemma printedLength_append : printedLength (T ++ T') = printedLength T + printedLength T' := by
  simp [printedLength]

lemma printedLength_singleton (x : Tree) : printedLength [x] = x.render.length + 1 := by
  simp [printedLength]

lemma weight_cons : weight (T :: Ls) = printedLength T + 1 + weight Ls := by
  simp [weight]

lemma renderAll_length_le (xs : List Tree) : (renderAll xs).length ≤ printedLength xs := by
  induction xs with
  | nil => exact Nat.le_refl _
  | cons x xs ih =>
    have hsep : (separator xs).length ≤ 1 := by cases xs <;> simp [separator]
    simp only [renderAll, printedLength, List.length_append, List.map_cons, List.sum_cons] at ih ⊢
    omega

lemma list_render_length (xs : List Tree) :
    (Tree.list xs).render.length ≤ printedLength xs + 2 := by
  have := renderAll_length_le xs
  simp only [Tree.render, List.length_append, List.length_cons, List.length_nil]
  omega

lemma escapeText_length (t : List Byte) : (escapeText t).length ≤ 2 * t.length := by
  induction t with
  | nil => exact Nat.le_refl _
  | cons c t ih =>
    rw [escapeText]
    split_ifs <;> simp only [List.length_cons] <;> omega

end Lengths

section Rounds

variable {r r' : Reader} {c : Byte} {n m : Nat}

/-- A token costs what its text and its marks cost. -/
lemma finish_price {aty : AtomT} (hlevels : weight r.levels ≤ n)
    (hcost : (renderAtom aty r.text).length + 1 ≤ m) (hfin : r.finishAtom aty = ([], .ok r')) :
    r'.lex = .gap ∧ Tidy r' ∧ price r' ≤ n + m := by
  rw [finishAtom] at hfin
  cases hl : r.levels with
  | nil =>
    rw [hl] at hfin
    cases hfin
  | cons T Ls =>
    rw [hl] at hfin hlevels
    cases hfin
    refine ⟨rfl, ⟨fun _ => ⟨rfl, rfl⟩, fun hlex => by cases hlex⟩, ?_⟩
    rw [weight_cons] at hlevels
    change weight ((T ++ [.atom aty r.text]) :: Ls) + 0 + 0 ≤ n + m
    rw [weight_cons, printedLength_append, printedLength_singleton, Tree.render]
    omega

lemma price_gap (h : Tidy r) (hlex : r.lex = .gap) (hfeed : r.feedGap c = ([], .ok r')) :
    Tidy r' ∧ price r' ≤ price r + 2 := by
  obtain ⟨htext, hsq⟩ := h.blank (.inl hlex)
  have hprice : price r = weight r.levels := by simp [price, markCost, hlex, htext]
  rw [feedGap] at hfeed
  split_ifs at hfeed with h1 h2 h3 h4 h5 h6
  · cases hfeed
    exact ⟨h, Nat.le_add_right _ _⟩
  · cases hfeed
    refine ⟨⟨fun _ => ⟨htext, hsq⟩, fun hbare => by cases hbare⟩, ?_⟩
    rw [hprice]
    simp [price, markCost, htext]
  · cases hfeed
    refine ⟨⟨fun _ => ⟨htext, hsq⟩, fun hbare => ?_⟩, ?_⟩
    · rw [hlex] at hbare
      cases hbare
    · rw [hprice]
      simp only [price, markCost, hlex, htext, weight_cons, printedLength, List.map_nil,
        List.sum_nil, List.length_nil]
      omega
  · cases hl : r.levels with
    | nil =>
      rw [hl] at hfeed
      cases hfeed
    | cons T Ls =>
      rw [hl] at hfeed hprice
      cases Ls with
      | nil => cases hfeed
      | cons T' Ls =>
        cases hfeed
        refine ⟨⟨fun _ => ⟨htext, hsq⟩, fun hbare => ?_⟩, ?_⟩
        · rw [hlex] at hbare
          cases hbare
        · have hrender := list_render_length T
          rw [hprice]
          simp only [price, markCost, hlex, htext, weight_cons, printedLength_append,
            printedLength_singleton, List.length_nil]
          omega
  · cases hfeed
    refine ⟨⟨fun hblank => ?_, fun hbare => by cases hbare⟩, ?_⟩
    · rcases hblank with hblank | hblank | hblank <;> cases hblank
    · rw [hprice]
      simp [price, markCost, htext]
  · cases hfeed
    refine ⟨⟨fun _ => ⟨htext, hsq⟩, fun hbare => by cases hbare⟩, ?_⟩
    rw [hprice]
    simp [price, markCost, htext]
  · cases hfeed
    refine ⟨⟨fun hblank => ?_, fun _ _ => by simp [Reader.push]⟩, ?_⟩
    · rcases hblank with hblank | hblank | hblank <;> cases hblank
    · rw [hprice]
      simp [price, markCost, Reader.push, htext, hsq]

/-- One more byte of the token, with the marks it had. -/
lemma price_push {lex : Lex} {squoted esc pair : Bool} {qdepth : Int} {text : List Byte}
    (htext : text.length ≤ r.text.length + 1)
    (hmark : markCost ⟨lex, squoted, esc, pair, qdepth, text, r.levels⟩ ≤ markCost r) :
    price ⟨lex, squoted, esc, pair, qdepth, text, r.levels⟩ ≤ price r + 2 := by
  simp only [price]
  omega

/-- An escaped byte takes the place of its backslash. -/
lemma price_escape (hlex : r.lex = .bare ∨ r.lex = .quoted) {pair : Bool}
    (hfeed : { r with pair := pair }.escape c = ([], .ok r')) :
    Tidy r' ∧ price r' ≤ price r + 2 := by
  rw [escape] at hfeed
  cases htext : r.text with
  | nil =>
    simp only [htext] at hfeed
    cases hfeed
  | cons d u =>
    simp only [htext] at hfeed
    cases hfeed
    refine ⟨⟨fun hblank => ?_, fun _ _ => by simp⟩, price_push ?_ ?_⟩
    · rcases hlex with hlex | hlex <;> rw [hlex] at hblank <;>
        rcases hblank with hblank | hblank | hblank <;> cases hblank
    · simp [htext]
    · rcases hlex with hlex | hlex <;> simp [markCost, hlex]

lemma price_bare (h : Tidy r) (hlex : r.lex = .bare) (hfeed : r.feedBare c = ([], .ok r')) :
    Tidy r' ∧ price r' ≤ price r + 2 := by
  rw [feedBare] at hfeed
  by_cases hesc : (r.esc && isEscapable c) = true
  · rw [if_pos hesc] at hfeed
    exact price_escape (.inl hlex) hfeed
  rw [if_neg hesc] at hfeed
  by_cases hatom : isAtomByte c = true
  · rw [if_pos hatom] at hfeed
    cases hfeed
    refine ⟨⟨fun hblank => ?_, fun _ _ => by simp [Reader.push]⟩, price_push ?_ ?_⟩
    · simp [Reader.push, hlex] at hblank
    · simp
    · simp [markCost, hlex]
  rw [if_neg hatom] at hfeed
  cases hfin : r.finishAtom (if r.squoted then .squote else .basic) with | mk out next => ?_
  rw [hfin] at hfeed
  cases next with
  | error e => cases hfeed
  | ok r₁ =>
    obtain ⟨hout, hgap⟩ := Prod.mk.inj hfeed
    obtain ⟨rfl, hnone⟩ := List.append_eq_nil_iff.mp hout
    have hcost : (renderAtom (if r.squoted then .squote else .basic) r.text).length + 1 ≤
        2 * r.text.length + markCost r := by
      cases hsq : r.squoted with
      | true =>
        simp only [renderAtom, markCost, hlex, hsq, if_true, List.length_cons]
        omega
      | false =>
        have hpos := List.length_pos_iff.mpr (h.bare hlex hsq)
        simp only [renderAtom, markCost, hlex, hsq, Bool.false_eq_true, if_false]
        omega
    obtain ⟨hlex₁, h₁, hprice⟩ := finish_price (Nat.le_refl _) hcost hfin
    obtain ⟨h', hprice'⟩ := price_gap h₁ hlex₁ (Prod.ext hnone hgap)
    refine ⟨h', Nat.le_trans hprice' ?_⟩
    simp only [price] at hprice ⊢
    omega

/-- The end of a token with a mark, in a reader `s` that has the open lists of `r`. -/
lemma finish_marked {s : Reader} {aty : AtomT} (hmark : markCost r = 2)
    (hcost : (renderAtom aty s.text).length + 1 ≤ 2 * r.text.length + 4)
    (hlevels : s.levels = r.levels) (hfin : s.finishAtom aty = ([], .ok r')) :
    Tidy r' ∧ price r' ≤ price r + 2 := by
  obtain ⟨-, h', hprice⟩ := finish_price (Nat.le_of_eq (congrArg weight hlevels)) hcost hfin
  refine ⟨h', Nat.le_trans hprice ?_⟩
  rw [price, hmark]
  omega

lemma price_quoted (hlex : r.lex = .quoted) (hfeed : r.feedQuoted c = ([], .ok r')) :
    Tidy r' ∧ price r' ≤ price r + 2 := by
  have hmark : markCost r = 2 := by simp [markCost, hlex]
  rw [feedQuoted] at hfeed
  split_ifs at hfeed with hesc hc hsq
  · exact price_escape (.inr hlex) hfeed
  · refine finish_marked (s := { r with text := r.text ++ [dquote] }) hmark ?_ rfl
      hfeed
    simp only [renderAtom, List.length_append, List.length_cons, List.length_nil]
    omega
  · refine finish_marked hmark ?_ rfl hfeed
    have := escapeText_length r.text
    simp only [renderAtom, List.length_append, List.length_cons, List.length_nil]
    omega
  · cases hfeed
    refine ⟨⟨fun hblank => ?_, fun hbare => ?_⟩, price_push ?_ ?_⟩
    · simp [Reader.push, hlex] at hblank
    · simp [Reader.push, hlex] at hbare
    · simp
    · simp [markCost, hlex]

/-- A byte of a quoted list that does not end it. -/
lemma price_listByte (hmark : markCost r = 2) {lex : Lex} (hlex : lex = .quotedList ∨ lex = .quotedString)
    {squoted esc pair : Bool} {qdepth : Int} :
    Tidy ⟨lex, squoted, esc, pair, qdepth, r.text ++ [c], r.levels⟩ ∧
      price ⟨lex, squoted, esc, pair, qdepth, r.text ++ [c], r.levels⟩ ≤ price r + 2 := by
  refine ⟨⟨fun hblank => ?_, fun hbare => ?_⟩, price_push (by simp) ?_⟩
  · rcases hlex with rfl | rfl <;> rcases hblank with hblank | hblank | hblank <;> cases hblank
  · rcases hlex with rfl | rfl <;> cases hbare
  · rw [hmark]
    rcases hlex with rfl | rfl <;> exact Nat.le_refl _

lemma price_quotedList (hlex : r.lex = .quotedList) (hfeed : r.feedQuotedList c = ([], .ok r')) :
    Tidy r' ∧ price r' ≤ price r + 2 := by
  have hmark : markCost r = 2 := by simp [markCost, hlex]
  rw [feedQuotedList] at hfeed
  split_ifs at hfeed with h1 h2 h3 h4 h5
  · cases hfeed
    exact price_listByte hmark (.inl hlex)
  · cases hfeed
    exact price_listByte hmark (.inl hlex)
  · refine finish_marked (s := { r with qdepth := 0 }.push c) hmark ?_ rfl hfeed
    simp only [Reader.push, renderAtom, List.length_append, List.length_cons, List.length_nil]
    omega
  · cases hfeed
    exact price_listByte hmark (.inl hlex)
  · cases hfeed
    exact price_listByte hmark (.inr rfl)
  · cases hfeed
    exact price_listByte hmark (.inl hlex)

lemma price_quotedString (hlex : r.lex = .quotedString)
    (hfeed : r.feedQuotedString c = ([], .ok r')) : Tidy r' ∧ price r' ≤ price r + 2 := by
  have hmark : markCost r = 2 := by simp [markCost, hlex]
  rw [feedQuotedString] at hfeed
  split_ifs at hfeed
  · cases hfeed
    exact price_listByte hmark (.inl rfl)
  · cases hfeed
    exact price_listByte hmark (.inr hlex)

lemma price_tick (h : Tidy r) (hlex : r.lex = .tick) (hfeed : r.feedTick c = ([], .ok r')) :
    Tidy r' ∧ price r' ≤ price r + 2 := by
  obtain ⟨htext, -⟩ := h.blank (.inr (.inr hlex))
  have hprice : price r = weight r.levels + 2 := by simp [price, markCost, hlex, htext]
  rw [feedTick] at hfeed
  split_ifs at hfeed with hd hl
  · cases hfeed
    refine ⟨⟨fun hblank => ?_, fun hbare => by cases hbare⟩, ?_⟩
    · rcases hblank with hblank | hblank | hblank <;> cases hblank
    · rw [hprice]
      simp [price, markCost]
  · have hsame : price { r with lex := .quotedList } = price r := by simp [price, markCost, hlex]
    rw [← hsame]
    exact price_quotedList rfl hfeed
  · have hsame : price { r with lex := .bare, squoted := true } = price r := by
      simp [price, markCost, hlex]
    rw [← hsame]
    refine price_bare ⟨fun hblank => ?_, fun _ hsq => by cases hsq⟩ rfl hfeed
    rcases hblank with hblank | hblank | hblank <;> cases hblank

lemma price_feedLex (h : Tidy r) (hfeed : r.feedLex c = ([], .ok r')) :
    Tidy r' ∧ price r' ≤ price r + 2 := by
  obtain ⟨lex, squoted, esc, pair, qdepth, text, levels⟩ := r
  cases lex with
  | gap => exact price_gap h rfl hfeed
  | comment =>
    rw [feedLex] at hfeed
    dsimp only at hfeed
    split_ifs at hfeed
    · cases hfeed
      exact ⟨⟨fun _ => h.blank (.inr (.inl rfl)), fun hbare => by cases hbare⟩, Nat.le_add_right _ _⟩
    · cases hfeed
      exact ⟨h, Nat.le_add_right _ _⟩
  | bare => exact price_bare h rfl hfeed
  | quoted => exact price_quoted rfl hfeed
  | tick => exact price_tick h rfl hfeed
  | quotedList => exact price_quotedList rfl hfeed
  | quotedString => exact price_quotedString rfl hfeed

lemma price_feed (h : Tidy r) (hfeed : r.feed c = ([], .ok r')) :
    Tidy r' ∧ price r' ≤ price r + 2 := by
  have h' : Tidy { r with pair := false } := ⟨h.blank, h.bare⟩
  have hprice := price_feedLex h' hfeed
  exact hprice

/-- Reading a text that completes no expression. -/
lemma price_scan {w : List Byte} (h : Tidy r) (hscan : scan r w = ([], .ok r')) :
    Tidy r' ∧ price r' ≤ price r + 2 * w.length := by
  induction w generalizing r with
  | nil =>
    cases hscan
    exact ⟨h, Nat.le_refl _⟩
  | cons c w ih =>
    rw [scan_cons] at hscan
    match hfeed : r.feed c with
    | (out, .ok r₁) =>
      rw [hfeed, scanOn_ok] at hscan
      obtain ⟨hout, hrun⟩ := Prod.mk.inj hscan
      obtain ⟨rfl, hnone⟩ := List.append_eq_nil_iff.mp hout
      obtain ⟨h₁, hprice₁⟩ := price_feed h hfeed
      obtain ⟨h', hprice⟩ := ih h₁ (Prod.ext hnone hrun)
      rw [List.length_cons]
      exact ⟨h', by omega⟩
    | (out, .error e) =>
      rw [hfeed] at hscan
      cases hscan

/-- What the elements on the open lists take to print. -/
theorem weight_le_of_scan {w : List Byte} (hscan : scan Reader.start w = ([], .ok r)) :
    weight r.levels ≤ 2 * w.length := by
  have hstart : Tidy Reader.start := ⟨fun _ => ⟨rfl, rfl⟩, fun hbare => by cases hbare⟩
  obtain ⟨-, hprice⟩ := price_scan hstart hscan
  have hzero : price Reader.start = 0 := rfl
  rw [hzero, price] at hprice
  omega

end Rounds

end Sfsexp.Proofs
