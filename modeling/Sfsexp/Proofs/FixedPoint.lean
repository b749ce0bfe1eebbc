import Sfsexp.Proofs.Stability

/-!
# When printing is a fixed point

An expression that was parsed is printed, parsed and printed again. The second text is the first one
exactly when the first one is the rendering of a stable expression: the printer escapes
double-quoted atoms only, and the parser takes escapes out of every atom.
-/

namespace Sfsexp.Proofs

open Sfsexp Spec

/-- `print_sexp_cstr` leaves `text` in a new string. -/
def PrintsText (g : StringSetup) (ss : Nat) (e : ErrCode) (x : Sexp) (text : List Byte) : Prop :=
  ∃ n p s, printSexpCstr g n none [x] ss e = .ret p ∧ p.str = some s ∧
    s.base.take s.curlen = text

section Print

variable {g : StringSetup} {ss : Nat} {e : ErrCode} {x : Sexp} {text text' : List Byte}

lemma printsText_render (hg : g.Succeeds) (hx : Sealed x) (ss : Nat) (e : ErrCode) :
    PrintsText g ss e x x.tree.render := by
  obtain ⟨n, p, s, hrun, hstr, -, hs⟩ := printSexpCstr_renders hg hx [] ss e
  exact ⟨n, p, s, hrun, hstr, hs.taken⟩

lemma printsText_unique (h : PrintsText g ss e x text) (h' : PrintsText g ss e x text') :
    text = text' := by
  obtain ⟨n, p, s, hrun, hstr, htext⟩ := h
  obtain ⟨n', p', s', hrun', hstr', htext'⟩ := h'
  have hle := printSexpCstr_mono (Nat.le_max_left n n') hrun
  have hle' := printSexpCstr_mono (Nat.le_max_right n n') hrun'
  have hp : p = p' := by
    rw [hle] at hle'
    cases hle'
    rfl
  subst hp
  rw [hstr] at hstr'
  cases hstr'
  exact htext.symm.trans htext'

/-- The texts of atoms are C strings. -/
lemma nul_atom (aty : AtomT) (val : List Byte) : nul ∉ renderAtom aty (cstr val) := by
  have htext := nul_cstr val
  cases aty with
  | basic => exact htext
  | squote => simpa [renderAtom, show nul ≠ tick by decide] using htext
  | dquote =>
    simpa [renderAtom, show nul ≠ dquote by decide] using nul_escapeText htext
  | binary => exact htext

mutual
lemma nul_sealed (x : Sexp) (hx : Sealed x) : nul ∉ x.tree.render := by
  match x, hx with
  | .value aty val _ _, _ => exact nul_atom aty val
  | .list elems, hx =>
    simpa [Sexp.tree, Tree.render, show nul ≠ lparen by decide, show nul ≠ rparen by decide] using
      nul_sealedAll elems hx

lemma nul_sealedAll (xs : List Sexp) (hxs : SealedAll xs) : nul ∉ renderAll (forest xs) := by
  match xs, hxs with
  | [], _ => simp [forest, renderAll]
  | x :: xs, hxs =>
    have hx := nul_sealed x hxs.1
    have hrest := nul_sealedAll xs hxs.2
    have hsep : nul ∉ separator (forest xs) := by
      cases xs <;> simp [forest, separator, show nul ≠ space by decide]
    simp [forest, renderAll, hx, hrest, hsep]
end

end Print

section Parse

variable {g k : Setup} {w : List Byte} {e : ErrCode} {x : Sexp}

/-- `parse_sexp` returns the element that the text starts with. -/
lemma parseSexp_element (hg : g.Succeeds) (hk : k.Succeeds) (hnul : nul ∉ w)
    (h : parseSexp g k (some (w ++ [nul])) w.length e = some [x]) :
    Sealed x ∧ ∃ esc rest, Element false (w ++ [newline]) x.tree esc rest := by
  have hw : w ≠ [] := by
    rintro rfl
    cases h
  have hread := parseSexp_reads (e := e) hg hk hw hnul (List.cons_ne_nil nul []) (.inl rfl)
  rw [h] at hread
  cases hscan : (scan Reader.start (w ++ [newline])).1 with
  | nil =>
    rw [hscan] at hread
    rcases hread with hread | hread <;> cases hread
  | cons t out =>
    rw [hscan] at hread
    obtain ⟨y, hy, htree, hsealed⟩ := hread
    cases hy
    exact ⟨hsealed, scan_start_iff.mp ⟨out, htree ▸ hscan⟩⟩

lemma element_parseSexp (hg : g.Succeeds) (hk : k.Succeeds) (hw : w ≠ []) (hnul : nul ∉ w)
    {t : Tree} {esc : Bool} {rest : List Byte} (h : Element false (w ++ [newline]) t esc rest) :
    ∃ x, parseSexp g k (some (w ++ [nul])) w.length e = some [x] ∧ x.tree = t ∧ Sealed x := by
  obtain ⟨out, hscan⟩ := scan_start_iff.mpr ⟨esc, rest, h⟩
  have hread := parseSexp_reads (e := e) hg hk hw hnul (List.cons_ne_nil nul []) (.inl rfl)
  rwa [hscan] at hread

end Parse

lemma stable_ne_nil {t : Tree} {c : Byte} (h : Stable false t c) : t.render ≠ [] := by
  match t, h with
  | .atom .basic text, h =>
    obtain ⟨c, u, rfl, -⟩ := h
    exact List.cons_ne_nil c u
  | .atom .squote text, _ => exact List.cons_ne_nil _ _
  | .atom .dquote text, _ => exact List.cons_ne_nil _ _
  | .list elems, _ => exact List.cons_ne_nil _ _

/-- Printing a parsed expression, parsing the text in a buffer of its own and printing again gives
the same text exactly when the expression is printed as a stable one. -/
theorem print_fixed_point {g : StringSetup} {g₁ g₂ : Setup} (hg : g.Succeeds) (hg₁ : g₁.Succeeds)
    (hg₂ : g₂.Succeeds) {w : List Byte} (hnul : nul ∉ w) {x : Sexp} {e e₁ e₂ : ErrCode} (ss : Nat)
    (hx : parseSexp g₁ g₂ (some (w ++ [nul])) w.length e = some [x]) :
    (∃ s y, PrintsText g ss e₁ x s ∧
      parseSexp g₁ g₂ (some (s ++ [nul])) s.length e₂ = some [y] ∧ PrintsText g ss e₁ y s) ↔
      PrintsBack w := by
  obtain ⟨hsealed, esc, rest, hfirst⟩ := parseSexp_element hg₁ hg₂ hnul hx
  constructor
  · rintro ⟨s, y, hprint, hparse, hagain⟩
    obtain rfl := printsText_unique hprint (printsText_render hg hsealed ss e₁)
    obtain ⟨hsealed', esc', rest', hsecond⟩ := parseSexp_element hg₁ hg₂ (nul_sealed x hsealed) hparse
    have hsame := printsText_unique hagain (printsText_render hg hsealed' ss e₁)
    rw [hsame] at hsecond
    have hstable := stable_of_element y.tree (.inr (.inl rfl)) hsecond
    exact ⟨x.tree, esc, rest, hfirst, y.tree, hstable, hsame.symm⟩
  · rintro ⟨t, esc', rest', hread, u, hstable, hrender⟩
    obtain ⟨rfl, -, -⟩ := element_unique hread hfirst
    have hsecond : Element false (x.tree.render ++ [newline]) u (flagOf false u) [newline] :=
      hrender ▸ element_of_stable u (.inr (.inl rfl)) hstable []
    obtain ⟨y, hparse, htree, hsealed'⟩ := element_parseSexp (e := e₂) hg₁ hg₂
      (hrender ▸ stable_ne_nil hstable) (nul_sealed x hsealed) hsecond
    have hagain := printsText_render hg hsealed' ss e₁
    rw [htree, hrender] at hagain
    exact ⟨x.tree.render, y, printsText_render hg hsealed ss e₁, hparse, hagain⟩

/-- The text `(a '(b))`. -/
theorem print_fixed_point_list :
    ∃ x s y,
      parseSexp .plain .plain (some [lparen, 97, space, tick, lparen, 98, rparen, rparen, nul]) 8 .ok =
        some [x] ∧
      PrintsText .plain 8 .ok x s ∧ parseSexp .plain .plain (some (s ++ [nul])) s.length .ok = some [y] ∧
      PrintsText .plain 8 .ok y s := by
  have hfree : Element false ([lparen, 97, space, tick, lparen, 98, rparen, rparen] ++ [newline])
      (.list [.atom .basic [97], .atom .squote [lparen, 98, rparen]]) false [newline] :=
    .list rfl (.cons (.atom rfl (by decide) (by decide) rfl)
      (.cons (.atom rfl (by decide) (by decide) rfl) (.nil rfl)))
  have hstable :
      Stable false (.list [.atom .basic [97], .atom .squote [lparen, 98, rparen]]) newline :=
    stable_of_element _ (.inr (.inl rfl)) (w := []) hfree
  obtain ⟨x, hx, -⟩ := element_parseSexp (g := .plain) (k := .plain) (e := .ok) (fun _ => rfl)
    (fun _ => rfl) (List.cons_ne_nil _ _) (by decide) hfree
  obtain ⟨s, y, hall⟩ := (print_fixed_point (g := .plain) (fun _ => rfl) (fun _ => rfl)
    (fun _ => rfl) (by decide) 8 hx).mpr ⟨_, _, _, hfree, _, hstable, rfl⟩
  exact ⟨x, s, y, hx, hall⟩

/-- The text `a\"b`: the escape is lost when the atom is printed. -/
theorem print_drops_escape :
    ∃ x s y s', parseSexp .plain .plain (some [97, backslash, dquote, 98, nul]) 4 .ok = some [x] ∧
      PrintsText .plain 8 .ok x s ∧ parseSexp .plain .plain (some (s ++ [nul])) s.length .ok = some [y] ∧
      PrintsText .plain 8 .ok y s' ∧ s' ≠ s := by
  have hfirst : Element false ([97, backslash, dquote, 98] ++ [newline])
      (.atom .basic [97, dquote, 98]) false
      [newline] := .atom rfl (by decide) (by decide) rfl
  have hsecond : Element false ([97, dquote, 98] ++ [newline]) (.atom .basic [97]) false
      [dquote, 98, newline] := .atom rfl (by decide) (by decide) rfl
  obtain ⟨x, hx, htree, hsealed⟩ := element_parseSexp (g := .plain) (k := .plain) (e := .ok)
    (fun _ => rfl) (fun _ => rfl) (List.cons_ne_nil _ _) (by decide) hfirst
  obtain ⟨y, hy, htree', hsealed'⟩ := element_parseSexp (g := .plain) (k := .plain) (e := .ok)
    (fun _ => rfl) (fun _ => rfl) (List.cons_ne_nil _ _) (by decide) hsecond
  have hprint := printsText_render (g := .plain) (fun _ => rfl) hsealed 8 .ok
  have hprint' := printsText_render (g := .plain) (fun _ => rfl) hsealed' 8 .ok
  rw [htree] at hprint
  rw [htree'] at hprint'
  exact ⟨x, _, y, _, hx, hprint, hy, hprint', by decide⟩

end Sfsexp.Proofs
