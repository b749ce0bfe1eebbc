import Sfsexp.Proofs.Chunks
import Sfsexp.Spec.Stream

/-!
# The byte that ends an expression

Only white space and the end of a comment take the reader back between two expressions without
completing one. So an expression that is the only one of a text is ended by the last byte exactly
when nothing is left open and that byte is not white.
-/

namespace Sfsexp.Proofs

open Sfsexp Spec Reader

section Rest

variable {r r' : Reader} {c : Byte}

/-- The reader is between two top-level expressions. -/
def Outside (r : Reader) : Prop := r.lex = .gap ∧ r.levels = []

lemma not_outside_of_lex (h : r.lex ≠ .gap) : ¬ Outside r := fun hrest => h hrest.1

lemma white_of_feedGap (h : r.feedGap c = ([], .ok r')) (hrest : Outside r') : isWhite c = true := by
  obtain ⟨hgap, hlevels⟩ := hrest
  rw [feedGap] at h
  split_ifs at h with hwhite
  · exact hwhite
  · cases h
    cases hgap
  · cases h
    cases hlevels
  · split at h <;> cases h
    cases hlevels
  all_goals
    cases h
    cases hgap

/-- Inside a list a byte does not take the reader outside silently. -/
lemma not_outside_feedGap (hopen : r.levels ≠ []) (h : r.feedGap c = ([], .ok r')) : ¬ Outside r' := by
  rintro ⟨hgap, hlevels⟩
  rw [feedGap] at h
  split_ifs at h
  · cases h
    exact hopen hlevels
  · cases h
    exact hopen hlevels
  · cases h
    cases hlevels
  · split at h <;> cases h
    cases hlevels
  all_goals
    cases h
    exact hopen hlevels

lemma levels_of_finishAtom {aty : AtomT} (h : r.finishAtom aty = ([], .ok r')) : r'.levels ≠ [] := by
  rw [finishAtom] at h
  split at h <;> cases h
  simp

lemma not_outside_finishAtom {aty : AtomT} (h : r.finishAtom aty = ([], .ok r')) : ¬ Outside r' :=
  fun hrest => levels_of_finishAtom h hrest.2

lemma not_outside_escape (hlex : r.lex ≠ .gap) (h : r.escape c = ([], .ok r')) : ¬ Outside r' := by
  rw [escape] at h
  split at h <;> cases h
  exact not_outside_of_lex hlex

lemma not_outside_push (hlex : r.lex ≠ .gap)
    (h : (([], .ok (r.push c)) : Outcome) = ([], .ok r')) : ¬ Outside r' := by
  cases h
  exact not_outside_of_lex hlex

lemma not_outside_feedBare (hlex : r.lex ≠ .gap) (h : r.feedBare c = ([], .ok r')) : ¬ Outside r' := by
  rw [feedBare] at h
  by_cases hesc : (r.esc && isEscapable c) = true
  · rw [if_pos hesc] at h
    exact not_outside_escape hlex h
  · rw [if_neg hesc] at h
    by_cases hatom : isAtomByte c = true
    · rw [if_pos hatom] at h
      exact not_outside_push hlex h
    · rw [if_neg hatom] at h
      generalize hfin : r.finishAtom (if r.squoted then AtomT.squote else .basic) = o at h
      rcases o with ⟨out, e | r₁⟩
      · cases h
      · obtain ⟨rfl, hout⟩ := List.append_eq_nil_iff.mp (congrArg Prod.fst h)
        have hstate : (r₁.feedGap c).2 = .ok r' := congrArg Prod.snd h
        exact not_outside_feedGap (levels_of_finishAtom hfin) (Prod.ext hout hstate)

lemma not_outside_feedQuoted (hlex : r.lex ≠ .gap) (h : r.feedQuoted c = ([], .ok r')) :
    ¬ Outside r' := by
  rw [feedQuoted] at h
  split_ifs at h
  · exact not_outside_escape (by exact hlex) h
  · exact not_outside_finishAtom h
  · exact not_outside_finishAtom h
  · exact not_outside_push hlex h

lemma not_outside_feedQuotedList (hlex : r.lex ≠ .gap) (h : r.feedQuotedList c = ([], .ok r')) :
    ¬ Outside r' := by
  rw [feedQuotedList] at h
  split_ifs at h
  · exact not_outside_push hlex h
  · exact not_outside_push (by exact hlex) h
  · exact not_outside_finishAtom h
  · exact not_outside_push (by exact hlex) h
  · exact not_outside_push (by simp) h
  · exact not_outside_push hlex h

lemma not_outside_feedQuotedString (hlex : r.lex ≠ .gap)
    (h : r.feedQuotedString c = ([], .ok r')) : ¬ Outside r' := by
  rw [feedQuotedString] at h
  split_ifs at h
  · exact not_outside_push (by simp) h
  · exact not_outside_push hlex h

lemma not_outside_feedTick (h : r.feedTick c = ([], .ok r')) : ¬ Outside r' := by
  rw [feedTick] at h
  split_ifs at h
  · cases h
    exact not_outside_of_lex (by simp)
  · exact not_outside_feedQuotedList (by simp) h
  · exact not_outside_feedBare (by simp) h

/-- A byte that takes the reader back between two expressions, without completing one, is white. -/
lemma white_of_feed (h : r.feed c = ([], .ok r')) (hrest : Outside r') : isWhite c = true := by
  rw [Reader.feed, feedLex] at h
  dsimp only at h
  cases hlex : r.lex with
  | gap =>
    rw [hlex] at h
    exact white_of_feedGap h hrest
  | comment =>
    rw [hlex] at h
    dsimp only at h
    split_ifs at h with hc
    · rw [hc]
      rfl
    · cases h
      cases hrest.1
  | bare =>
    rw [hlex] at h
    exact absurd hrest (not_outside_feedBare (by simp) h)
  | quoted =>
    rw [hlex] at h
    exact absurd hrest (not_outside_feedQuoted (by simp) h)
  | tick =>
    rw [hlex] at h
    exact absurd hrest (not_outside_feedTick h)
  | quotedList =>
    rw [hlex] at h
    exact absurd hrest (not_outside_feedQuotedList (by simp) h)
  | quotedString =>
    rw [hlex] at h
    exact absurd hrest (not_outside_feedQuotedString (by simp) h)

/-- So is the last byte of a text that does. -/
lemma white_of_scan {w : List Byte} (hne : w ≠ []) (h : scan r w = ([], .ok r')) (hrest : Outside r') :
    ∃ c, w.getLast? = some c ∧ isWhite c = true := by
  obtain ⟨v, c, rfl⟩ := List.eq_nil_or_concat w |>.resolve_left hne
  refine ⟨c, by simp, ?_⟩
  rw [List.concat_eq_append, scan_append] at h
  rcases hv : scan r v with ⟨out, e | r₁⟩
  · rw [hv, scanOn_error] at h
    cases h
  · rw [hv, scanOn_ok, scan_singleton] at h
    obtain ⟨rfl, hout⟩ := List.append_eq_nil_iff.mp (congrArg Prod.fst h)
    have hstate : (r₁.feed c).2 = .ok r' := congrArg Prod.snd h
    exact white_of_feed (Prod.ext hout hstate) hrest

end Rest

/-- No piece completes an expression in front of the last byte of all, and none ends behind an escape
pair inside double quotes. -/
def OnlyLast : Reader → List (List Byte) → Prop
  | _, [] => True
  | r, u :: rest =>
    (∃ r', scan r u = ([], .ok r') ∧ r'.pair = false ∧ OnlyLast r' rest) ∨
      (rest = [] ∧ EndsLast r u)

section Pieces

variable {r : Reader} {u w : List Byte} {pieces rest : List (List Byte)}

lemma ne_nil_of_endsLast (h : EndsLast r w) : w ≠ [] := by
  rintro rfl
  obtain ⟨x, hx, -⟩ := h
  cases hx

lemma endsLast_append {r' : Reader} (hu : scan r u = ([], .ok r')) (hne : w ≠ []) :
    EndsLast r (u ++ w) ↔ EndsLast r' w := by
  rw [EndsLast, EndsLast, scan_append, hu, scanOn_silent, List.getLast?_append_of_ne_nil _ hne]

/-- Behind an expression that the first piece completes there is nothing. -/
lemma endsLast_of_output {r' : Reader} {out : List Tree} (hu : scan r u = (out, .ok r'))
    (hout : out ≠ []) (hrest : ∀ v ∈ rest, v ≠ [])
    (h : (∃ r'', scan r (u ++ rest.flatten) = ([], .ok r'')) ∨ EndsLast r (u ++ rest.flatten)) :
    rest = [] ∧ EndsLast r u := by
  rcases h with ⟨r'', hsilent⟩ | hends
  · rw [scan_append, hu, scanOn_ok] at hsilent
    exact absurd (List.append_eq_nil_iff.mp (congrArg Prod.fst hsilent)).1 hout
  · cases rest with
    | nil => exact ⟨rfl, by rwa [List.flatten_nil, List.append_nil] at hends⟩
    | cons v rest =>
      exfalso
      have hne : (v :: rest).flatten ≠ [] := by
        rw [List.flatten_cons]
        exact List.append_ne_nil_of_left_ne_nil (hrest v (by simp)) _
      obtain ⟨x, hx, hlast⟩ := hends
      rw [scan_append, hu, scanOn_ok] at hx
      have hsilent : (scan r' (v :: rest).flatten).1 = [] := by
        have hlen := congrArg (List.length ∘ Prod.fst) hx
        have hpos := List.length_pos_iff.mpr hout
        simp only [Function.comp_apply, List.length_append, List.length_singleton] at hlen
        exact List.length_eq_zero_iff.mp (by omega)
      have hstart : (scan r' (v :: rest).flatten).2 = .ok start := congrArg Prod.snd hx
      obtain ⟨c, hc, hwhite⟩ := white_of_scan hne (Prod.ext hsilent hstart) ⟨rfl, rfl⟩
      rw [hlast c (by rw [List.getLast?_append_of_ne_nil _ hne, hc])] at hwhite
      cases hwhite

/-- Told from the stream and its cutting. -/
lemma onlyLast_iff (hne : ∀ u ∈ pieces, u ≠ []) : OnlyLast r pieces ↔
    Clean r pieces ∧ ((∃ r', scan r pieces.flatten = ([], .ok r')) ∨ EndsLast r pieces.flatten) := by
  induction pieces generalizing r with
  | nil => simp [OnlyLast, Clean]
  | cons u rest ih =>
    obtain ⟨hu, hrest⟩ := List.forall_mem_cons.mp hne
    rw [OnlyLast, List.flatten_cons]
    constructor
    · rintro (⟨r', hscan, hpair, honly⟩ | ⟨rfl, hends⟩)
      · obtain ⟨hclean, hlast⟩ := (ih hrest).mp honly
        refine ⟨?_, ?_⟩
        · rw [Clean, hscan]
          exact ⟨hpair, hclean⟩
        · rcases hlast with ⟨r'', hsilent⟩ | hends
          · refine .inl ⟨r'', ?_⟩
            rw [scan_append, hscan, scanOn_silent, hsilent]
          · exact .inr ((endsLast_append hscan (ne_nil_of_endsLast hends)).mpr hends)
      · rw [List.flatten_nil, List.append_nil]
        refine ⟨?_, .inr hends⟩
        obtain ⟨x, hscan, -⟩ := hends
        rw [Clean, hscan]
        exact ⟨rfl, trivial⟩
    · rintro ⟨hclean, hlast⟩
      rcases hscan : scan r u with ⟨out, e | r'⟩
      · rw [EndsLast, scan_append, hscan, scanOn_error] at hlast
        rcases hlast with ⟨r', h⟩ | ⟨x, h, -⟩ <;> cases h
      · rw [Clean, hscan] at hclean
        obtain ⟨hpair, hclean⟩ := hclean
        by_cases hout : out = []
        · subst hout
          rw [scan_append, hscan, scanOn_silent] at hlast
          refine .inl ⟨r', rfl, hpair, (ih hrest).mpr ⟨hclean, ?_⟩⟩
          rcases hlast with hsilent | hends
          · exact .inl hsilent
          · refine .inr ((endsLast_append hscan fun hnil => ?_).mp hends)
            obtain ⟨x, hx, -⟩ := hends
            rw [hnil, List.append_nil, hscan] at hx
            cases hx
        · exact .inr (endsLast_of_output hscan hout hrest hlast)

end Pieces

end Sfsexp.Proofs
