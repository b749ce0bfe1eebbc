import Sfsexp.Proofs.FirstCalls
import Sfsexp.Proofs.FixedPoint
import Sfsexp.Proofs.PartialContent

/-!
# Parsing what `print_pcont` writes

The string that `print_pcont` writes for an expression that ends between tokens inside a list, passed
to `cparse_sexp` with a new continuation: when it restores the open lists and their elements.
-/

namespace Sfsexp.Proofs

open Sfsexp Spec Filter

section Texts

variable {E : List Tree} {cc : Pcont} {T : List Sexp} {L : List (List Sexp)}

lemma nul_shownLevel (xs : List Sexp) (hxs : SealedAll xs) : nul ∉ shownLevel (forest xs) := by
  induction xs with
  | nil => exact List.not_mem_nil
  | cons x xs ih =>
    by_cases hlist : x = .list []
    · subst hlist
      change nul ∉ [lparen]
      decide
    · rw [forest, shownLevel_cons (tree_ne_open hlist)]
      simpa [show nul ≠ space by decide] using ⟨nul_sealed x hxs.1, ih hxs.2⟩

lemma nul_shownText (h : ∀ T ∈ cc.stack.levels, SealedAll T) : nul ∉ shownText cc := by
  rw [shownText, List.mem_flatten]
  rintro ⟨t, ht, hnul⟩
  obtain ⟨T, hT, rfl⟩ := List.mem_map.mp ht
  exact nul_shownLevel T (h T (List.mem_reverse.mp hT)) hnul

lemma sealedAll_open (T : List Sexp) (h : SealedAll T) : SealedAll (T ++ [.list []]) := by
  induction T with
  | nil => exact ⟨trivial, trivial⟩
  | cons x T ih => exact ⟨h.1, ih h.2⟩

lemma sealed_openLevels (h : SealedLevels L) : ∀ T ∈ openLevels L, SealedAll T := by
  cases L with
  | nil => exact fun T hT => absurd hT List.not_mem_nil
  | cons T L =>
    intro T' hT'
    simp only [openLevels, List.mem_cons, List.mem_append, List.mem_map, List.not_mem_nil,
      or_false] at hT'
    rcases hT' with rfl | ⟨E, hE, rfl⟩ | rfl
    · exact h T' List.mem_cons_self
    · exact sealedAll_open E (h E (List.mem_cons_of_mem _ hE))
    · exact ⟨trivial, trivial⟩

lemma shownLevel_open_end (E : List Tree) : ∃ v, shownLevel (E ++ [.list []]) = v ++ [lparen] := by
  induction E with
  | nil => exact ⟨[], rfl⟩
  | cons x E ih =>
    by_cases hx : x = .list []
    · subst hx
      exact ⟨[], rfl⟩
    · obtain ⟨v, hv⟩ := ih
      exact ⟨x.render ++ space :: v, by rw [List.cons_append, shownLevel_cons hx, hv]; simp⟩

/-- Without an element in the innermost list the text ends with an opening paren. -/
lemma shownText_end (h : StackOk cc.stack ([] :: L)) : ∃ v, shownText cc = v ++ [lparen] := by
  rw [shownText_of_stack h]
  rcases List.eq_nil_or_concat L.reverse with hL | ⟨L', E, hL⟩
  · rw [hL]
    exact ⟨[], rfl⟩
  · obtain ⟨v, hv⟩ := shownLevel_open_end (forest E)
    refine ⟨[lparen] ++ (L'.map fun E => shownLevel (forest E ++ [.list []])).flatten ++ v, ?_⟩
    rw [hL, List.concat_eq_append, List.map_append, List.flatten_append, List.map_singleton,
      List.flatten_singleton, hv]
    simp [forest, shownLevel]

/-- All elements stand as they are, and the innermost list has one. -/
lemma reopened_self {E : List Tree} {Es : List (List Tree)} (A : List (List Tree))
    (hA : A = [] ∨ A = [[]]) (hend : E = [] → A = [[]]) {Ls : List (List Tree)}
    (hread : A ++ Ls = reopened [] E ++ Es.map upToOpen) :
    Ls = E :: Es ↔ E ≠ [] ∧ ∀ T ∈ E :: Es, ∀ x ∈ T, x ≠ .list [] := by
  have hall : E.all standsComplete = true ↔ upToOpen E = E := by
    rw [upToOpen_eq_self, List.all_eq_true]
    exact forall₂_congr fun _ _ => standsComplete_iff
  have hself : Es.map upToOpen = Es ↔ ∀ T ∈ Es, upToOpen T = T := by
    have hinj := @List.map_inj_left _ _ Es upToOpen id
    rwa [List.map_id] at hinj
  constructor
  · rintro rfl
    have hlen := congrArg List.length hread
    by_cases hE : E.all standsComplete = true
    · rw [reopened, if_pos hE] at hread hlen
      have hnil : A = [] := by
        rcases hA with rfl | rfl
        · rfl
        · simp at hlen
      rw [hnil, List.nil_append, List.nil_append, List.singleton_append] at hread
      have hEs := (List.cons_eq_cons.mp hread).2
      refine ⟨fun h => ?_, ?_⟩
      · rw [hend h] at hnil
        cases hnil
      · intro T hT
        rcases List.mem_cons.mp hT with rfl | hT
        · exact upToOpen_eq_self.mp (hall.mp hE)
        · apply upToOpen_eq_self.mp
          exact hself.mp hEs.symm T hT
    · rw [reopened, if_neg hE] at hread hlen
      have hone : A = [[]] := by
        rcases hA with rfl | rfl
        · simp at hlen
        · rfl
      rw [hone] at hread
      have hE' := (List.cons_eq_cons.mp (List.cons_eq_cons.mp hread).2).1
      exact absurd (hall.mpr hE'.symm) hE
  · rintro ⟨hne, hstand⟩
    have hEs : Es.map upToOpen = Es := by
      apply hself.mpr
      intro T hT
      exact upToOpen_eq_self.mpr (hstand T (List.mem_cons_of_mem _ hT))
    have hE : E.all standsComplete = true :=
      hall.mpr (upToOpen_eq_self.mpr (hstand E List.mem_cons_self))
    rw [reopened, if_pos hE, hEs] at hread
    rcases hA with rfl | rfl
    · exact hread
    · exact absurd (List.cons_eq_cons.mp hread).1.symm hne

end Texts

section Calls

variable {g g₂ : Setup} {gs : Nat → Setup} {w : List Byte} {e e₂ errno : ErrCode} {r r₂ : Return}
  {cc : Pcont} {buf : List Byte}

/-- The string that `print_pcont` writes, parsed with a new continuation, gives the same depth and the
same completed elements at every open level. -/
def Restored (gs : Nat → Setup) (g₂ : Setup) (cc : Pcont) (buf : List Byte) (errno e₂ : ErrCode) :
    Prop :=
  ∃ p r₂, (∀ᶠ n in atTop, printPcont gs n cc buf errno = .ok p) ∧
    (cparseSexp g₂ (some (cstr p.cells ++ [nul])) (cstr p.cells).length none e₂).returnOf = some r₂ ∧
    r₂.cc.depth = cc.depth ∧ completed r₂.cc = completed cc

/-- A continuation that ended between tokens inside a list. -/
structure HalfBuilt (cc : Pcont) (T : List Sexp) (L : List (List Sexp)) : Prop where
  stack : StackOk cc.stack (T :: L)
  depth : cc.depth = L.length + 1
  used : cc.valUsed = 0
  lasting : ∀ E ∈ (T :: L).map forest, LastingAll E
  levels : ∀ T ∈ cc.stack.levels, LeavesAll TextAtom T ∧ SealedAll T

lemma halfBuilt_of_first (hg : g.Succeeds) (hnul : nul ∉ w) (hback : backslash ∉ w)
    (hret : (cparseSexp g (some (w ++ [nul])) w.length none e).returnOf = some r)
    (hwait : r.errno = .incomplete) (hstate : r.cc.state = .s1) (hused : r.cc.valUsed = 0)
    (hopen : 0 < r.cc.depth) : ∃ T L, HalfBuilt r.cc T L := by
  have hends := first_ends hg hnul hret
  generalize hscan : scan Reader.start w = q at hends
  cases hends with
  | more R L hgood hq htree herror herrno hpos hcursor h3 =>
    rw [hq] at hscan
    have hread := unescaping_scan unescaping_start hback hscan
    have hview := @Good.view_gap (r.cc.enter 0) L hgood (.inl hstate)
    have hlevels : ∀ E ∈ L.map forest, LastingAll E := by
      have hlasting := hread.levels
      rwa [show view r.cc.toRegs L = _ from hview] at hlasting
    have hplain := plain_of_session (fun _ _ h => h) (session_of_first hg hret)
    cases L with
    | nil =>
      have hzero : r.cc.depth = 0 := hgood.depth
      omega
    | cons T L =>
      refine ⟨T, L, hgood.stack, hgood.depth, hused, hlevels, fun T' hT' => ⟨hplain.levels T' hT', ?_⟩⟩
      rw [hgood.stack.levels] at hT'
      exact sealed_openLevels hgood.sealed T' hT'
  | tree R x p hr hp hq =>
    rw [hr.errno] at hwait
    cases hwait
  | bad R hr hq =>
    rw [hr.errno] at hwait
    cases hwait
  | overrun s r' hq hpair hlex hs => cases hs rfl

/-- What the stack is like behind a call that returned. -/
lemma levels_of_first (hg : g.Succeeds) (hnul : nul ∉ w)
    (hret : (cparseSexp g (some (w ++ [nul])) w.length none e).returnOf = some r) :
    r.cc.depth = 0 ∨ ∃ L, Good r.cc.toRegs L ∧
      scan Reader.start w = ([], .ok (view r.cc.toRegs L)) := by
  have hends := first_ends hg hnul hret
  generalize scan Reader.start w = q at hends
  cases hends with
  | more R L hgood hq htree herror herrno hpos hcursor h3 => exact .inr ⟨L, hgood, hq⟩
  | tree R x p hr hp hq => exact .inl hr.idle.good.depth
  | bad R hr hq => exact .inl (depth_of_badForm hg hnul hret hr.errno)
  | overrun s r' hq hpair hlex hs => cases hs rfl

variable {T : List Sexp} {L : List (List Sexp)}

/-- A text that an `int` can count is written as it is, and read as the reader reads it. -/
lemma restored_short (hcc : HalfBuilt cc T L) (hgs : ∀ k, (gs k).Succeeds) (hg₂ : g₂.Succeeds)
    (hbuf : (shownText cc).length + 1 < buf.length) (hint : (shownText cc).length < 2 ^ 31) :
    Restored gs g₂ cc buf errno e₂ ↔ Retrievable cc := by
  have hnul : nul ∉ shownText cc := nul_shownText fun T hT => (hcc.levels T hT).2
  have hscan := scan_shownText hcc.stack hcc.lasting
  obtain ⟨p, hp, htext⟩ := printPcont_written hgs hcc.levels hcc.used hnul hbuf hint errno
  obtain ⟨s, hcall, hends⟩ := parseSexp_first (e := e₂) hg₂ hnul (List.cons_ne_nil nul [])
  rw [hscan] at hends
  obtain ⟨r₂, L₂, rfl, hgood, hview⟩ : ∃ r₂ L₂, s = .ret r₂ ∧ Good r₂.cc.toRegs L₂ ∧
      announced r₂.cc.state ++ L₂.map forest =
        reopened [] (forest T) ++ (L.map forest).map upToOpen := by
    cases hends with
    | more R L₂ hgood hq htree herror herrno hpos hcursor h3 =>
      have hlevels := congrArg Reader.levels (Except.ok.inj (Prod.mk.inj hq).2)
      exact ⟨R, L₂, rfl, hgood, hlevels.symm⟩
    | tree R x p hr hp hq => cases hq
    | bad R hr hq => cases hq
    | stray hq => cases hq
    | overrun s r' hq hpair hlex hs =>
      cases hq
      cases hpair
  have hret : (cparseSexp g₂ (some (shownText cc ++ [nul])) (shownText cc).length none e₂).returnOf =
      some r₂ := by
    rw [hcall]
    rfl
  have hsame : Restored gs g₂ cc buf errno e₂ ↔ L₂.map forest = forest T :: L.map forest := by
    have hlen : r₂.cc.depth = (L₂.map forest).length := by rw [List.length_map, hgood.depth]
    constructor
    · rintro ⟨p', r₂', hp', hret', -, hcompleted⟩
      obtain ⟨n, hn, hn'⟩ := (hp.and hp').exists
      obtain rfl : p = p' := Except.ok.inj (hn.symm.trans hn')
      rw [htext, hret] at hret'
      obtain rfl := Option.some.inj hret'
      rw [completed_of_stack hgood.stack, completed_of_stack hcc.stack] at hcompleted
      exact hcompleted
    · intro hsame
      refine ⟨p, r₂, hp, by rw [htext]; exact hret, ?_, ?_⟩
      · rw [hlen, hsame, hcc.depth, List.length_cons, List.length_map]
      · rw [completed_of_stack hgood.stack, completed_of_stack hcc.stack]
        exact hsame
  have hannounced : announced r₂.cc.state = [] ∨ announced r₂.cc.state = [[]] := by
    rw [announced]
    split_ifs
    · exact .inr rfl
    · exact .inl rfl
  have hend : forest T = [] → announced r₂.cc.state = [[]] := by
    intro hT
    cases T with
    | cons x T => cases hT
    | nil =>
      obtain ⟨v, hv⟩ := shownText_end hcc.stack
      rw [hv] at hnul hscan hret
      rw [announced, if_pos (state_of_paren hg₂ hnul hscan rfl rfl hret)]
  rw [hsame, reopened_self _ hannounced hend hview]
  have hcompleted : completed cc = forest T :: L.map forest := completed_of_stack hcc.stack
  constructor
  · rintro ⟨hinner, hlists⟩
    refine ⟨fun E hE => ?_, by rw [hcompleted]; exact hlists, hint⟩
    rw [hcompleted] at hE
    obtain rfl := Option.some.inj hE
    exact hinner
  · rintro ⟨hinner, hlists, -⟩
    refine ⟨hinner _ ?_, by rw [← hcompleted]; exact hlists⟩
    rw [hcompleted]
    rfl

/-- A longer text is never restored: the string in the buffer is too short for its elements. -/
lemma not_restored_long (hcc : HalfBuilt cc T L) (hgs : ∀ k, (gs k).Succeeds) (hg₂ : g₂.Succeeds)
    (hbuf : (shownText cc).length + 1 < buf.length) (hlong : ¬ (shownText cc).length < 2 ^ 31) :
    ¬ Restored gs g₂ cc buf errno e₂ := by
  rintro ⟨p, r₂, hp, hret, hdepth, hcompleted⟩
  obtain ⟨q, j, hlen, hint, hend⟩ := printPcont_ends hcc.levels hgs hcc.used hbuf hp
  rcases levels_of_first hg₂ (nul_cstr _) hret with hzero | ⟨L₂, hgood, hscan⟩
  · rw [hzero, hcc.depth] at hdepth
    omega
  · have hcost := weight_le_of_scan hscan
    have hweight : weight (completed cc) ≤ weight (view r₂.cc.toRegs L₂).levels := by
      rw [← hcompleted, completed_of_stack hgood.stack]
      simp [view, weight]
    have hshown := shownText_length hcc.stack
    omega

/-- For a text without backslashes and NULs that ends between tokens inside a list, and a buffer that
has room, the string that `print_pcont` writes restores the open lists and their elements exactly when
the half-built expression can be told from its text. -/
theorem print_pcont_restores (hg : g.Succeeds) (hgs : ∀ k, (gs k).Succeeds) (hg₂ : g₂.Succeeds)
    (hback : backslash ∉ w) (hnul : nul ∉ w)
    (hret : (cparseSexp g (some (w ++ [nul])) w.length none e).returnOf = some r)
    (hwait : r.errno = .incomplete) (hstate : r.cc.state = .s1) (hused : r.cc.valUsed = 0)
    (hopen : 0 < r.cc.depth) (hbuf : (shownText r.cc).length + 1 < buf.length)
    (errno e₂ : ErrCode) :
    Restored gs g₂ r.cc buf errno e₂ ↔ Retrievable r.cc := by
  obtain ⟨T, L, hcc⟩ := halfBuilt_of_first hg hnul hback hret hwait hstate hused hopen
  by_cases hint : (shownText r.cc).length < 2 ^ 31
  · exact restored_short hcc hgs hg₂ hbuf hint
  · exact ⟨fun h => absurd h (not_restored_long hcc hgs hg₂ hbuf hint), fun h => absurd h.int hint⟩

end Calls

/-- What is computed of a call: its error, its state and position, and the text that is to be shown. -/
structure Summary where
  errno : ErrCode
  state : State
  valUsed : Nat
  depth : Nat
  length : Nat
  standing : Bool
  deriving DecidableEq

def summary (r : Return) : Summary :=
  ⟨r.errno, r.cc.state, r.cc.valUsed, r.cc.depth, (shownText r.cc).length,
    (completed r.cc).all fun T => T.all standsComplete⟩

/-- After `(a (b ` two lists are open. -/
theorem print_pcont_restores_nested :
    ∃ r, (cparseSexp .plain (some ([lparen, 97, space, lparen, 98, space] ++ [nul])) 6 none
        .ok).returnOf = some r ∧
      (Restored (fun _ => .plain) .plain r.cc (List.replicate 8 0) .ok .ok ↔ Retrievable r.cc) := by
  have hrun : ((cparseSexp .plain (some ([lparen, 97, space, lparen, 98, space] ++ [nul])) 6 none
      .ok).returnOf.map summary) = some ⟨.incomplete, .s1, 0, 2, 6, true⟩ := by
    decide +kernel
  obtain ⟨r, hr, hsum⟩ := Option.map_eq_some_iff.mp hrun
  refine ⟨r, hr, print_pcont_restores (fun _ => rfl) (fun _ _ => rfl) (fun _ => rfl) (by decide)
    (by decide) hr (congrArg Summary.errno hsum) (congrArg Summary.state hsum)
    (congrArg Summary.valUsed hsum) ?_ ?_ .ok .ok⟩
  · rw [show r.cc.depth = 2 from congrArg Summary.depth hsum]
    decide
  · rw [show (shownText r.cc).length = 6 from congrArg Summary.length hsum]
    decide

/-- After `(() ` the complete list without elements is taken for an open one, and `((` is written. -/
theorem empty_list_taken_for_open :
    ∃ r, (cparseSexp .plain (some ([lparen, lparen, rparen, space] ++ [nul])) 4 none .ok).returnOf =
        some r ∧
      summary r = ⟨.incomplete, .s1, 0, 1, 2, false⟩ ∧
      ¬ Restored (fun _ => .plain) .plain r.cc (List.replicate 8 0) .ok .ok := by
  have hrun : ((cparseSexp .plain (some ([lparen, lparen, rparen, space] ++ [nul])) 4 none
      .ok).returnOf.map summary) = some ⟨.incomplete, .s1, 0, 1, 2, false⟩ := by
    decide +kernel
  obtain ⟨r, hr, hsum⟩ := Option.map_eq_some_iff.mp hrun
  have hdepth : r.cc.depth = 1 := congrArg Summary.depth hsum
  have hlen : (shownText r.cc).length = 2 := congrArg Summary.length hsum
  have hstanding : ((completed r.cc).all fun T => T.all standsComplete) = false :=
    congrArg Summary.standing hsum
  refine ⟨r, hr, hsum, fun hrestored => ?_⟩
  obtain ⟨T, L, hcc⟩ := halfBuilt_of_first (fun _ => rfl) (by decide) (by decide) hr
    (congrArg Summary.errno hsum) (congrArg Summary.state hsum) (congrArg Summary.valUsed hsum)
    (by omega)
  have hbuf : (shownText r.cc).length + 1 < (List.replicate 8 (0 : Byte)).length := by
    rw [hlen]
    decide
  have hshort : (shownText r.cc).length < 2 ^ 31 := by
    rw [hlen]
    decide
  have hretrievable :=
    (restored_short hcc (fun _ _ => rfl) (fun _ => rfl) hbuf hshort).mp hrestored
  rw [← Bool.not_eq_true, List.all_eq_true] at hstanding
  refine hstanding fun E hE => List.all_eq_true.mpr fun x hx => ?_
  exact standsComplete_iff.mpr (hretrievable.lists E hE x hx)

end Sfsexp.Proofs
