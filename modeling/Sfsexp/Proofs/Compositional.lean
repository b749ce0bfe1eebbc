import Sfsexp.Proofs.Composition
import Sfsexp.Proofs.ParseSexp

/-!
# A list of elements that were read by themselves

`cparse_sexp` reads a list as the elements it reads from their texts alone, unless an atom leaves
the escape flag set in front of a token that looks at it.
-/

namespace Sfsexp.Proofs

open Sfsexp Spec

section Calls

variable {g : Setup} {w tail rest : List Byte} {e : ErrCode} {x : Sexp} {R : Return} {T : List Tree}

/-- A call on a new continuation. -/
lemma call_new (hg : g.Succeeds) (hnul : nul ∉ w) (htail : tail ≠ []) (e : ErrCode) :
    ∃ s, cparseSexp g (some (w ++ tail)) w.length (some (Pcont.new g)) e = Result.ofStop (some s) ∧
      Ends w tail (scan Reader.start w) s := by
  have hb : Holding (Call.env ⟨g, w ++ tail, w.length, e⟩) w tail :=
    ⟨hg, rfl, Nat.le_refl _, .inl rfl, htail, hnul⟩
  obtain ⟨s, hcall, hends⟩ := call_ends (k := ⟨g, w ++ tail, w.length, e⟩) hb (good_new g)
    (by simp [Pcont.new]) (Nat.zero_le _)
  rw [view_new] at hends
  exact ⟨s, hcall, hends⟩

/-- What a call with a tree says about the text. -/
lemma scan_of_call (hg : g.Succeeds) (hnul : nul ∉ w)
    (hcall : cparseSexp g (some (w ++ [nul])) w.length (some (Pcont.new g)) e = .ret R)
    (htree : R.cc.lastSexp = [x]) :
    Sealed x ∧ R.cursor ≤ w.length ∧
      scan Reader.start w = (x.tree :: (scan Reader.start (w.drop R.cursor)).1,
        (scan Reader.start (w.drop R.cursor)).2) := by
  obtain ⟨s, hrun, hends⟩ := call_new hg hnul (List.cons_ne_nil nul []) e
  rw [hcall] at hrun
  cases hends with
  | more R' L hgood hq hnone =>
    cases hrun
    rw [htree] at hnone
    cases hnone
  | tree R' y p hr hp hq =>
    cases hrun
    rw [hr.tree] at htree
    cases htree
    rw [hr.cursor]
    exact ⟨hr.sealed, hp, hq⟩
  | bad R' hr hq =>
    cases hrun
    rw [hr.tree] at htree
    cases htree
  | stray hq => cases hrun
  | overrun s r hq hpair hlex hs =>
    rw [hs rfl] at hrun
    cases hrun

/-- A text that starts with an element is read as that element. -/
lemma call_of_element (hg : g.Succeeds) (hnul : nul ∉ w) {t : Tree} {f : Bool}
    (h : Element false w t f rest) (e : ErrCode) :
    ∃ R x, cparseSexp g (some (w ++ [nul])) w.length (some (Pcont.new g)) e = .ret R ∧
      R.cc.error = .ok ∧ R.cc.lastSexp = [x] ∧ x.tree = t := by
  obtain ⟨out, hout⟩ := scan_start_iff.mpr ⟨f, rest, h⟩
  obtain ⟨s, hrun, hends⟩ := call_new hg hnul (List.cons_ne_nil nul []) e
  generalize scan Reader.start w = q at hout hends
  cases hends with
  | more R' L hgood hq =>
    rw [hq] at hout
    cases hout
  | tree R' y p hr hp hq =>
    rw [hq] at hout
    exact ⟨R', y, hrun, hr.error, hr.tree, (List.cons.inj hout).1⟩
  | bad R' hr hq =>
    rw [hq] at hout
    cases hout
  | stray hq =>
    rw [hq] at hout
    cases hout
  | overrun s r hq hpair hlex hs =>
    rw [hq] at hout
    cases hout

lemma scan_white (hw : ∀ c ∈ w, isWhite c = true) :
    scan Reader.start w = ([], .ok Reader.start) := by
  induction w with
  | nil => rfl
  | cons c w ih =>
    rw [← between_nil, scan_between, gap_white (hw c List.mem_cons_self), scanOn_silent]
    exact ih fun d hd => hw d (List.mem_cons_of_mem _ hd)

/-- The text of one element, with nothing but white space and comments behind it. -/
def Alone (w : List Byte) (t : Tree) : Prop :=
  ∃ own rest, Element false w t own rest ∧ ∀ u, skipGap (rest ++ u) = skipGap u

/-- A text that is read with only a gap behind the tree. -/
lemma alone_of_scan {t : Tree} (h : scan Reader.start w = ([t], .ok Reader.start)) : Alone w t := by
  obtain ⟨own, rest, helement⟩ := scan_start_iff.mp ⟨[], congrArg Prod.fst h⟩
  have hscan := scan_element helement []
  rw [between_nil, h, give, scanOn_ok] at hscan
  obtain ⟨hout, hok⟩ := Prod.mk.inj hscan
  have hnone : [] = (scan Reader.start rest).1 := (List.cons.inj hout).2
  exact ⟨own, rest, helement, fun u => skipGap_idle rest u (Prod.ext hnone.symm hok.symm)⟩

end Calls

/-- A call on the text and a newline returns the tree and leaves only white space unread. -/
def ReadsAlone (g : Setup) (e : ErrCode) (w : List Byte) (x : Sexp) : Prop :=
  ∃ R, cparseSexp g (some (w ++ [newline] ++ [nul])) (w ++ [newline]).length (some (Pcont.new g)) e =
      .ret R ∧
    R.cc.error = .ok ∧ R.cc.lastSexp = [x] ∧
      ∀ c ∈ (w ++ [newline]).drop R.cursor, isWhite c = true

/-- The elements as a list, each on a line of its own. -/
def listOf (es : List (List Byte)) : List Byte := lparen :: lines es ++ [rparen]

/-- A call on the list returns the trees as its elements. -/
def ReadsList (g : Setup) (e : ErrCode) (es : List (List Byte)) (xs : List Sexp) : Prop :=
  ∃ R ys, cparseSexp g (some (listOf es ++ [nul])) (listOf es).length (some (Pcont.new g)) e = .ret R ∧
    R.cc.error = .ok ∧ R.cc.lastSexp = [.list ys] ∧ forest ys = forest xs

section Lists

variable {g : Setup} {e : ErrCode} {es : List (List Byte)} {xs : List Sexp} {f : Bool}

lemma alone_of_reads (hg : g.Succeeds) {w : List Byte} {x : Sexp} (hnul : nul ∉ w)
    (h : ReadsAlone g e w x) : Alone (w ++ [newline]) x.tree := by
  obtain ⟨R, hcall, -, htree, hwhite⟩ := h
  have hnul' : nul ∉ w ++ [newline] := by simp [hnul, show nul ≠ newline by decide]
  obtain ⟨-, -, hscan⟩ := scan_of_call hg hnul' hcall htree
  rw [scan_white hwhite] at hscan
  exact alone_of_scan hscan

lemma nul_lines (hnul : ∀ w ∈ es, nul ∉ w) : nul ∉ listOf es := by
  intro hin
  simp only [listOf, lines, List.cons_append, List.mem_cons, List.mem_append, List.mem_flatMap,
    List.not_mem_nil, or_false] at hin
  rcases hin with hin | ⟨w, hw, hin | hin⟩ | hin
  · cases hin
  · exact hnul w hw hin
  · cases hin
  · cases hin

/-- The elements of the list are read as by themselves, ... -/
lemma elements_of_alone (hread : List.Forall₂ (fun w x => Alone (w ++ [newline]) x.tree) es xs)
    (hclash : NoClash f es) (t : List Byte) :
    ∃ f', Elements f (lines es ++ rparen :: t) (forest xs) f' t := by
  induction hread generalizing f with
  | nil => exact ⟨f, .nil (skipGap_solid (by decide) (by decide))⟩
  | @cons w x es xs hone hall ih =>
    obtain ⟨own, rest, helement, hgap⟩ := hone
    obtain ⟨hsafe, hrest⟩ := hclash
    have hread : Element f (w ++ [newline]) x.tree (flagBehind f own x.tree) rest := by
      cases f with
      | false => rwa [flagBehind_false]
      | true => exact (element_insensitive helement rfl (hsafe rfl)).1
    obtain ⟨f', htail⟩ := ih (hrest _ _ _ helement)
    refine ⟨f', ?_⟩
    have hlines : lines (w :: es) = w ++ [newline] ++ lines es := rfl
    rw [hlines, List.append_assoc]
    exact .cons (element_append hread _) (elements_gap (hgap _) htail)

/-- ... and only if no token looks at a flag that stands from an earlier one. -/
lemma noClash_of_elements (hread : List.Forall₂ (fun w x => Alone (w ++ [newline]) x.tree) es xs)
    {f' : Bool} {t t' : List Byte} (htriple : ¬ tripled <:+: lines es ++ rparen :: t)
    (h : Elements f (lines es ++ rparen :: t) (forest xs) f' t') : NoClash f es := by
  induction hread generalizing f with
  | nil => trivial
  | @cons w x es xs hone hall ih =>
    obtain ⟨own, rest, helement, hgap⟩ := hone
    have hlines : lines (w :: es) = w ++ [newline] ++ lines es := rfl
    rw [hlines, List.append_assoc] at h htriple
    cases h with
    | cons hfirst hothers =>
      have hsafe : f = true → ¬ Sensitive (w ++ [newline]) := by
        intro hf hs
        obtain ⟨-, -, -, u, hu, hsu, -⟩ := element_sensitive (element_append helement _) hfirst rfl hf
          rfl hs htriple
        -- the token would stand in the gap behind the element
        have hrest : rest = u := List.append_cancel_right hu
        have hnone : skipGap u = [] := by
          have hidle := hgap []
          rw [List.append_nil, hrest] at hidle
          exact hidle
        cases hsu with
        | paren hskip _ _ => simp [hnone] at hskip
        | empty hskip _ _ _ => simp [hnone] at hskip
        | dquote hskip _ => simp [hnone] at hskip
        | tick hskip _ _ => simp [hnone] at hskip
        | string hskip _ => simp [hnone] at hskip
      refine ⟨hsafe, fun y own' rest' hy => ?_⟩
      obtain ⟨rfl, rfl, rfl⟩ := element_unique helement hy
      have hread : Element f (w ++ [newline]) x.tree (flagBehind f own x.tree) rest := by
        cases f with
        | false => rwa [flagBehind_false]
        | true => exact (element_insensitive helement rfl (hsafe rfl)).1
      obtain ⟨-, rfl, rfl⟩ := element_unique hfirst (element_append hread _)
      have htail : lines es ++ rparen :: t <:+ w ++ [newline] ++ (lines es ++ rparen :: t) :=
        List.suffix_append _ _
      exact ih (fun hin => htriple (hin.trans htail.isInfix)) (elements_gap (hgap _).symm hothers)

/-- Texts that are read by themselves are read as the elements of a list, if no flag that an element
leaves meets a token that looks at it; and only then, the empty string with a double quote behind
it apart. -/
theorem elements_compose (hg : g.Succeeds) (hnul : ∀ w ∈ es, nul ∉ w)
    (hread : List.Forall₂ (ReadsAlone g e) es xs) :
    (NoClash false es → ReadsList g e es xs) ∧
      (¬ tripled <:+: listOf es → ReadsList g e es xs → NoClash false es) := by
  have hall : List.Forall₂ (fun w x => Alone (w ++ [newline]) x.tree) es xs := by
    induction hread with
    | nil => exact .nil
    | cons hone hall ih =>
      obtain ⟨hw, hes⟩ := List.forall_mem_cons.mp hnul
      exact .cons (alone_of_reads hg hw hone) (ih hes)
  constructor
  · intro hclash
    obtain ⟨f, helements⟩ := elements_of_alone hall hclash []
    have helement : Element false (listOf es) (.list (forest xs)) f [] :=
      .list (skipGap_solid (by decide) (by decide)) helements
    obtain ⟨R, x, hcall, herror, htree, hx⟩ := call_of_element hg (nul_lines hnul) helement e
    cases x with
    | value => cases hx
    | blob => cases hx
    | list ys => exact ⟨R, ys, hcall, herror, htree, Tree.list.inj hx⟩
  · rintro htriple ⟨R, ys, hcall, -, htree, hys⟩
    obtain ⟨-, -, hscan⟩ := scan_of_call hg (nul_lines hnul) hcall htree
    obtain ⟨f, rest, helement⟩ := scan_start_iff.mp ⟨_, congrArg Prod.fst hscan⟩
    rw [Sexp.tree, hys] at helement
    cases helement with
    | atom hgap hl hr hatom =>
      rw [listOf, List.cons_append, skipGap_solid (by decide) (by decide)] at hgap
      exact absurd (List.cons.inj hgap).1.symm hl
    | list hgap helements =>
      rw [listOf, List.cons_append, skipGap_solid (by decide) (by decide)] at hgap
      obtain ⟨-, rfl⟩ := List.cons.inj hgap
      refine noClash_of_elements hall (fun hin => htriple (hin.trans ?_)) helements
      exact (List.suffix_cons lparen _).isInfix

end Lists

section Examples

/-- Whether a text is read alone can be computed. -/
lemma exists_readsAlone {g : Setup} {e : ErrCode} {w : List Byte}
    (h : (cparseSexp g (some (w ++ [newline] ++ [nul])) (w ++ [newline]).length
      (some (Pcont.new g)) e).returnOf.map (fun R =>
        (R.cc.error, R.cc.lastSexp.length, ((w ++ [newline]).drop R.cursor).all isWhite)) =
      some (.ok, 1, true)) : ∃ x, ReadsAlone g e w x := by
  cases hcall : cparseSexp g (some (w ++ [newline] ++ [nul])) (w ++ [newline]).length
      (some (Pcont.new g)) e with
  | ret R =>
    rw [hcall] at h
    simp only [Result.returnOf, Option.map_some, Option.some.injEq, Prod.mk.injEq] at h
    obtain ⟨herror, hone, hwhite⟩ := h
    obtain ⟨x, hx⟩ := List.length_eq_one_iff.mp hone
    exact ⟨x, R, hcall, herror, hx, List.all_eq_true.mp hwhite⟩
  | null e =>
    rw [hcall] at h
    cases h
  | fault f =>
    rw [hcall] at h
    cases h
  | diverges =>
    rw [hcall] at h
    cases h

/-- The elements `a` and `"b"`. -/
theorem elements_compose_two : ∃ xs,
    List.Forall₂ (ReadsAlone .plain .ok) [[97], [dquote, 98, dquote]] xs ∧
    ReadsList .plain .ok [[97], [dquote, 98, dquote]] xs := by
  have hfirst : Element false ([97] ++ [newline]) (.atom .basic [97]) false [newline] :=
    .atom rfl (by decide) (by decide) rfl
  have hclash : NoClash false [[97], [dquote, 98, dquote]] := by
    constructor
    · intro h
      cases h
    · intro x own rest hx
      obtain ⟨rfl, rfl, rfl⟩ := element_unique hfirst hx
      exact ⟨fun h => absurd h (by decide), fun _ _ _ _ => trivial⟩
  obtain ⟨x, hx⟩ := @exists_readsAlone .plain .ok [97] (by decide +kernel)
  obtain ⟨y, hy⟩ := @exists_readsAlone .plain .ok [dquote, 98, dquote] (by decide +kernel)
  have hread : List.Forall₂ (ReadsAlone .plain .ok) [[97], [dquote, 98, dquote]] [x, y] :=
    .cons hx (.cons hy .nil)
  exact ⟨[x, y], hread, (elements_compose (fun _ => rfl) (by decide) hread).1 hclash⟩

/-- The elements `a\` and `"("`: in a list, the backslash of the first escapes the paren. -/
theorem flag_meets_token : ∃ xs,
    List.Forall₂ (ReadsAlone .plain .ok) [[97, backslash], [dquote, lparen, dquote]] xs ∧
    ¬ ReadsList .plain .ok [[97, backslash], [dquote, lparen, dquote]] xs := by
  obtain ⟨x, hx⟩ := @exists_readsAlone .plain .ok [97, backslash] (by decide +kernel)
  obtain ⟨y, hy⟩ := @exists_readsAlone .plain .ok [dquote, lparen, dquote] (by decide +kernel)
  refine ⟨[x, y], .cons hx (.cons hy .nil), ?_⟩
  rintro ⟨R, ys, hcall, -⟩
  have hnone : (cparseSexp .plain
      (some (listOf [[97, backslash], [dquote, lparen, dquote]] ++ [nul]))
      (listOf [[97, backslash], [dquote, lparen, dquote]]).length (some (Pcont.new .plain))
      .ok).returnOf.isNone =
        true := by decide +kernel
  rw [hcall] at hnone
  cases hnone

end Examples

end Sfsexp.Proofs
