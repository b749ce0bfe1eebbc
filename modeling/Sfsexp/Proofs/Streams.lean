import Sfsexp.Proofs.IoWrap
import Sfsexp.Proofs.RoundTrip
import Sfsexp.Proofs.TopLevel

/-!
# Streams of printed expressions

One side prints expressions, each on a line of its own. The other side gets the bytes in pieces, and
passes them to the parser or reads them from a descriptor.
-/

namespace Sfsexp.Proofs

open Sfsexp Spec

section Lines

variable {g : StringSetup} {ss : Nat} {e : ErrCode} {xs : List Sexp} {ts : List (List Byte)}

/-- An expression of text atoms that is read back as it is printed. -/
structure Writable (x : Sexp) : Prop where
  sealed : Sealed x
  readable : Readable x.tree

lemma prints_writable (hg : g.Succeeds) {x : Sexp} (hx : Writable x) (ss : Nat) (e : ErrCode) :
    Prints g ss e x x.tree.render := by
  obtain ⟨n, p, s, hrun, hstr, -, hs⟩ := printSexpCstr_renders hg hx.sealed [] ss e
  exact ⟨n, p, s, hrun, hstr, hs.taken.symm⟩

/-- The lines that the writer prints. -/
lemma lineTexts_of_writable (hg : g.Succeeds) (hxs : ∀ x ∈ xs, Writable x)
    (hts : List.Forall₂ (Prints g ss e) xs ts) : ts.flatMap (· ++ [newline]) = lineTexts xs := by
  induction hts with
  | nil => rfl
  | @cons x t xs ts ht _ ih =>
    obtain ⟨hx, hxs⟩ := List.forall_mem_cons.mp hxs
    rw [List.flatMap_cons, ih hxs, prints_unique ht (prints_writable hg hx ss e)]
    rfl

lemma nul_lineTexts (hxs : ∀ x ∈ xs, Writable x) : nul ∉ lineTexts xs := by
  intro hnul
  obtain ⟨x, hx, hin⟩ := List.mem_flatMap.mp hnul
  rcases List.mem_append.mp hin with hin | hin
  · exact nul_render _ (hxs x hx).readable hin
  · exact absurd (List.mem_singleton.mp hin) (by decide)

/-- The lines are read as the expressions. -/
lemma scan_lineTexts (hxs : ∀ x ∈ xs, Writable x) :
    scan Reader.start (lineTexts xs) = (xs.map Sexp.tree, .ok .start) := by
  induction xs with
  | nil => rfl
  | cons x xs ih =>
    obtain ⟨hx, hxs⟩ := List.forall_mem_cons.mp hxs
    have hsplit : lineTexts (x :: xs) = x.tree.render ++ newline :: lineTexts xs := by
      simp [lineTexts]
    have hline : scan Reader.start (newline :: lineTexts xs) = scan Reader.start (lineTexts xs) := by
      rw [scan_cons]
      rfl
    have hread := scan_render x.tree hx.readable [] (.inr (.inl rfl)) (lineTexts xs)
    rw [hsplit]
    refine hread.trans ?_
    rw [give, scanOn_ok, hline, ih hxs]
    rfl

end Lines

/-- A client that gets the lines in chunks, cut in any way, gets back the expressions that were
printed exactly when no chunk ends behind an escape pair inside double quotes. -/
theorem printed_stream_read_back {g : StringSetup} {g' : Setup} (hg : g.Succeeds) (hg' : g'.Succeeds)
    {xs : List Sexp} (hxs : ∀ x ∈ xs, Writable x) {ts : List (List Byte)} {ss : Nat} {e : ErrCode}
    (hts : List.Forall₂ (Prints g ss e) xs ts) {chunks : List (List Byte)} (hne : chunks ≠ [])
    (hcut : chunks.flatten = ts.flatMap (· ++ [newline])) :
    (∃ rs, driver g' chunks = some rs ∧ treesOf rs = xs.map Sexp.tree ∧
        finalError rs = some .incomplete) ↔
      ∀ n, ¬ EndsInPair (chunks.take n).flatten := by
  rw [lineTexts_of_writable hg hxs hts] at hcut
  have hscan := scan_lineTexts hxs
  have hnul : ∀ u ∈ chunks, nul ∉ u := by
    intro u hu hin
    apply nul_lineTexts hxs
    rw [← hcut]
    exact List.mem_flatten.mpr ⟨u, hu, hin⟩
  obtain ⟨hclean, hfault⟩ := driver_spec hg' hne hnul
  have hiff := clean_iff Reader.start rfl chunks
  rw [hcut, hscan] at hiff hclean
  constructor
  · rintro ⟨rs, hrs, -, -⟩
    by_contra hpair
    rw [hfault fun h => hpair (hiff.mp h).2] at hrs
    cases hrs
  · intro hpair
    exact hclean (hiff.mpr ⟨fun h => (by cases h), hpair⟩)

lemma writable_a : Writable (.value .basic [97, nul] 2 2) :=
  ⟨⟨rfl, by decide⟩, ⟨by decide, List.forall_mem_singleton.mpr rfl, by decide, by decide⟩⟩

lemma writable_quote : Writable (.value .dquote [dquote, nul] 2 2) :=
  ⟨⟨rfl, by decide⟩, show nul ∉ _ by decide⟩

/-- The expressions `a` and `"\""`, cut inside the escape pair. -/
theorem printed_stream_read_back_pair :
    (∃ rs, driver .plain [[97, newline, dquote, backslash], [dquote, dquote, newline]] = some rs ∧
        treesOf rs =
          [Sexp.value .basic [97, nul] 2 2, .value .dquote [dquote, nul] 2 2].map Sexp.tree ∧
        finalError rs = some .incomplete) ↔
      ∀ n, ¬ EndsInPair
        (([[97, newline, dquote, backslash], [dquote, dquote, newline]] : List _).take n).flatten := by
  have hg : StringSetup.plain.Succeeds := fun _ => rfl
  have hts : List.Forall₂ (Prints .plain 8 .ok)
      [Sexp.value .basic [97, nul] 2 2, .value .dquote [dquote, nul] 2 2]
      [[97], [dquote, backslash, dquote, dquote]] :=
    .cons (prints_writable hg writable_a 8 .ok)
      (.cons (prints_writable hg writable_quote 8 .ok) .nil)
  exact @printed_stream_read_back .plain .plain hg (fun _ => rfl) _
    (List.forall_mem_cons.mpr ⟨writable_a, List.forall_mem_singleton.mpr writable_quote⟩) _ 8 .ok hts
    [[97, newline, dquote, backslash], [dquote, dquote, newline]] (by decide) rfl

section Descriptor

variable {groups : List (List Sexp)}

lemma flatten_lineTexts (groups : List (List Sexp)) :
    (groups.map lineTexts).flatten = lineTexts groups.flatten := by
  induction groups with
  | nil => rfl
  | cons xs groups ih =>
    rw [List.map_cons, List.flatten_cons, List.flatten_cons, ih, lineTexts, lineTexts, lineTexts,
      List.flatMap_append]

/-- Pieces of whole lines complete expressions, and end in no token. -/
lemma lines_productive (hxs : ∀ xs ∈ groups, xs ≠ [] ∧ ∀ x ∈ xs, Writable x) :
    Productive Reader.start (groups.map lineTexts) ∧
      Clean Reader.start (groups.map lineTexts) := by
  induction groups with
  | nil => exact ⟨trivial, trivial⟩
  | cons xs groups ih =>
    obtain ⟨⟨hne, hx⟩, hxs⟩ := List.forall_mem_cons.mp hxs
    obtain ⟨hprod, hclean⟩ := ih hxs
    have hscan := scan_lineTexts hx
    rw [List.map_cons]
    refine ⟨(productive_cons ?_ (by rw [hscan])).mpr hprod, (clean_ok hscan).mpr ⟨rfl, hclean⟩⟩
    rw [hscan]
    simpa using hne

/-- The pieces that arrive. -/
lemma pieces_of_writable {g : StringSetup} (hg : g.Succeeds)
    (hxs : ∀ xs ∈ groups, xs ≠ [] ∧ ∀ x ∈ xs, Writable x) {ss : Nat} {e : ErrCode}
    {texts : List (List (List Byte))}
    (hts : List.Forall₂ (List.Forall₂ (Prints g ss e)) groups texts) :
    texts.map (·.flatMap (· ++ [newline])) = groups.map lineTexts := by
  induction hts with
  | nil => rfl
  | @cons xs ts groups texts hts _ ih =>
    obtain ⟨⟨-, hx⟩, hxs⟩ := List.forall_mem_cons.mp hxs
    rw [List.map_cons, List.map_cons, lineTexts_of_writable hg hx hts, ih hxs]

lemma lineTexts_ne_nil {xs : List Sexp} (hne : xs ≠ []) : lineTexts xs ≠ [] := by
  obtain ⟨x, xs, rfl⟩ := List.exists_cons_of_ne_nil hne
  simp [lineTexts]

end Descriptor

/-- Expressions that are printed on lines of their own and arrive through a descriptor in pieces of
whole lines, each of which fits into `buf`, all come out of `read_one_sexp`, in order, before
`SEXP_ERR_IO_EMPTY`. -/
theorem lines_through_descriptor {g : StringSetup} (hg : g.Succeeds) (gs : Nat → Setup)
    (hgs : ∀ i, (gs i).Succeeds) {groups : List (List Sexp)}
    (hxs : ∀ xs ∈ groups, xs ≠ [] ∧ ∀ x ∈ xs, Writable x) {ss : Nat} {e : ErrCode}
    {texts : List (List (List Byte))}
    (hts : List.Forall₂ (List.Forall₂ (Prints g ss e)) groups texts) (bufsiz : Nat)
    (hsize : ∀ u ∈ texts.map (·.flatMap (· ++ [newline])), u.length ≤ bufsiz) (iow : IoWrap)
    (errno : ErrCode) (hinit : initIowrap bufsiz true errno = (some iow, errno)) :
    ∃ rs, readAll gs (groups.flatten.length + 1) iow (texts.map (·.flatMap (· ++ [newline]))) errno =
        some rs ∧
      rs.iow.buf.length = bufsiz ∧ rs.errno = .ioEmpty ∧
      rs.trees.flatMap forest = groups.flatten.map Sexp.tree ∧
      rs.fed = (texts.map (·.flatMap (· ++ [newline]))).flatten := by
  have hpieces := pieces_of_writable hg hxs hts
  have hall : ∀ x ∈ groups.flatten, Writable x := by
    intro x hx
    obtain ⟨xs, hin, hx⟩ := List.mem_flatten.mp hx
    exact (hxs xs hin).2 x hx
  have hscan := scan_lineTexts hall
  have hnul : ∀ u ∈ groups.map lineTexts, u ≠ [] ∧ nul ∉ u := by
    intro u hu
    obtain ⟨xs, hin, rfl⟩ := List.mem_map.mp hu
    exact ⟨lineTexts_ne_nil (hxs xs hin).1, nul_lineTexts (hxs xs hin).2⟩
  obtain rfl : ⟨none, List.replicate bufsiz nul, 0⟩ = iow := by
    cases hinit
    rfl
  obtain ⟨hprod, hclean⟩ := lines_productive hxs
  have hrun := @readAll_spec gs ⟨none, List.replicate bufsiz nul, 0⟩ Reader.start .none
    (groups.map lineTexts) (groups.flatten.length + 1) errno hgs
    (.inr ⟨⟨rfl, rfl, .inl ⟨rfl, rfl⟩⟩, rfl⟩) hnul
  rw [Trail.none_fed, List.nil_append, flatten_lineTexts, hscan] at hrun
  have hcalls : (groups.flatten.map Sexp.tree).length < groups.flatten.length + 1 := by
    rw [List.length_map]
    exact Nat.lt_succ_self _
  obtain ⟨rs, hrs, hserved, -⟩ := hrun ⟨_, rfl⟩ ⟨rfl, hclean⟩ rfl hcalls
  obtain ⟨herrno, hgot⟩ := hserved hprod
  rw [scan_nil] at hgot
  obtain ⟨htrees, hfed⟩ := hgot.servedUpTo
  rw [flatten_lineTexts] at htrees hfed
  rw [hscan] at htrees
  rw [hpieces] at hsize ⊢
  rw [flatten_lineTexts]
  exact ⟨rs, hrs, readAll_room ⟨List.length_replicate, hsize⟩ hrs, herrno, htrees, hfed⟩

/-- The line `a`, then the line `"\""`. -/
theorem lines_through_descriptor_two :
    ∃ rs, readAll (fun _ => .plain) 3 ⟨none, List.replicate 5 nul, 0⟩
        ([[[97]], [[dquote, backslash, dquote, dquote]]].map (·.flatMap (· ++ [newline]))) .ok =
          some rs ∧
      rs.iow.buf.length = 5 ∧ rs.errno = .ioEmpty ∧
      rs.trees.flatMap forest =
        [[Sexp.value .basic [97, nul] 2 2], [.value .dquote [dquote, nul] 2 2]].flatten.map
          Sexp.tree ∧
      rs.fed =
        ([[[97]], [[dquote, backslash, dquote, dquote]]].map (·.flatMap (· ++ [newline]))).flatten := by
  have hg : StringSetup.plain.Succeeds := fun _ => rfl
  have hts : List.Forall₂ (List.Forall₂ (Prints .plain 8 .ok))
      [[Sexp.value .basic [97, nul] 2 2], [.value .dquote [dquote, nul] 2 2]]
      [[[97]], [[dquote, backslash, dquote, dquote]]] :=
    .cons (.cons (prints_writable hg writable_a 8 .ok) .nil)
      (.cons (.cons (prints_writable hg writable_quote 8 .ok) .nil) .nil)
  refine lines_through_descriptor hg (fun _ => .plain) (fun _ _ => rfl) ?_ hts 5 (by decide) _ .ok rfl
  refine List.forall_mem_cons.mpr ⟨⟨by simp, ?_⟩, List.forall_mem_singleton.mpr ⟨by simp, ?_⟩⟩
  · exact List.forall_mem_singleton.mpr writable_a
  · exact List.forall_mem_singleton.mpr writable_quote

end Sfsexp.Proofs
