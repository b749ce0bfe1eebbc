import Mathlib.Order.Filter.AtTopBot.Basic
import Sfsexp.Model.PartialPrinter
import Sfsexp.Proofs.BufferPrinting
import Sfsexp.Proofs.PlainSessions
import Sfsexp.Spec.Layout

/-!
# `print_pcont` and its buffer

The printer of a half-built expression stays inside its buffer exactly when the elements can be laid
out in front of its last cell.
-/

namespace Sfsexp.Proofs

open Sfsexp Spec Filter

mutual
/-- There is no binary atom in the tree. -/
def BlobFree : Tree → Prop
  | .atom _ _ => True
  | .binary _ => False
  | .list elems => BlobFreeAll elems

def BlobFreeAll : List Tree → Prop
  | [] => True
  | x :: xs => BlobFree x ∧ BlobFreeAll xs
end

mutual
lemma blobFree_of_text (x : Sexp) (h : Leaves TextAtom x) : BlobFree x.tree := by
  match x, h with
  | .value aty val valAllocated valUsed, _ => trivial
  | .blob bindata binlength, h => exact h.elim
  | .list elems, h => exact blobFreeAll_of_text elems h

lemma blobFreeAll_of_text (xs : List Sexp) (h : LeavesAll TextAtom xs) : BlobFreeAll (forest xs) := by
  match xs, h with
  | [], _ => trivial
  | x :: xs, h => exact ⟨blobFree_of_text x h.1, blobFreeAll_of_text xs h.2⟩
end

mutual
lemma legible_of_text (x : Sexp) (h : Leaves TextAtom x) : Legible x := by
  match x, h with
  | .value aty val valAllocated valUsed, h =>
    obtain ⟨hbinary, hpos, hlen, hend, -⟩ := h
    exact ⟨hbinary, hpos, hlen ▸ hend⟩
  | .blob bindata binlength, h => exact h.elim
  | .list elems, h => exact legibleAll_of_text elems h

lemma legibleAll_of_text (xs : List Sexp) (h : LeavesAll TextAtom xs) : LegibleAll xs := by
  match xs, h with
  | [], _ => trivial
  | x :: xs, h => exact ⟨legible_of_text x h.1, legibleAll_of_text xs h.2⟩
end

section Traversal

variable {g : Setup} {w w' w'' : Walk} {ps qs : List Piece}

/-- A traversal that ends goes on behind every part of it. -/
lemma puts_determined (h : w.Puts g ps w') (h' : w.Puts g qs w'') (hend : w''.step g = none) :
    ∃ rs, qs = ps ++ rs ∧ w'.Puts g rs w'' := by
  induction h generalizing qs with
  | refl w => exact ⟨qs, rfl, h'⟩
  | step hstep _ ih =>
    cases h' with
    | refl =>
      rw [hend] at hstep
      cases hstep
    | step hstep' hrest =>
      rw [hstep] at hstep'
      cases hstep'
      obtain ⟨rs, rfl, hrs⟩ := ih hrest
      exact ⟨rs, by rw [List.append_assoc], hrs⟩

lemma bytes_next (hw : ∀ level ∈ w.levels, BlobFreeAll level) :
    (∃ t : List Byte, w.next.1 = t.map .byte) ∧ ∀ level ∈ w.next.2.levels, BlobFreeAll level := by
  rw [Walk.next]
  split
  · rename_i y xs rest hl
    rw [hl] at hw
    obtain ⟨htop, hrest⟩ := List.forall_mem_cons.mp hw
    exact ⟨⟨_, rfl⟩, List.forall_mem_cons.mpr ⟨htop.2, hrest⟩⟩
  · exact ⟨⟨[], rfl⟩, hw⟩

/-- A step over text puts out bytes. -/
lemma bytes_step (hstep : w.step g = some (ps, w')) (hw : ∀ level ∈ w.levels, BlobFreeAll level) :
    (∃ t : List Byte, ps = t.map .byte) ∧ ∀ level ∈ w'.levels, BlobFreeAll level := by
  rw [Walk.step] at hstep
  split at hstep
  · cases hstep
  · rename_i rest hl
    obtain ⟨rfl, rfl⟩ := Prod.mk.inj (Option.some.inj hstep)
    rw [hl] at hw
    obtain ⟨-, hrest⟩ := List.forall_mem_cons.mp hw
    obtain ⟨⟨t, ht⟩, hlevels⟩ :=
      @bytes_next { w with levels := rest, spare := w.spare + 1, depth := w.depth - 1 } hrest
    refine ⟨⟨(if 0 < w.depth then [rparen] else []) ++ t, ?_⟩, hlevels⟩
    change (if 0 < w.depth then [Piece.byte rparen] else []) ++ (Walk.next _).1 = _
    rw [ht, List.map_append]
    split_ifs <;> rfl
  · rename_i elems xs rest hl
    obtain ⟨rfl, rfl⟩ := Prod.mk.inj (Option.some.inj hstep)
    have htop : BlobFreeAll (.list elems :: xs) := hw _ (by simp [hl])
    refine ⟨⟨[lparen], rfl⟩, ?_⟩
    rw [Walk.push]
    split_ifs
    · exact List.forall_mem_cons.mpr ⟨htop.1, hw⟩
    · exact List.forall_mem_cons.mpr ⟨htop.1, hw⟩
    · exact hw
  · rename_i x xs rest hlist hl
    obtain ⟨rfl, rfl⟩ := Prod.mk.inj (Option.some.inj hstep)
    obtain ⟨⟨t, ht⟩, hlevels⟩ := bytes_next hw
    have htop : BlobFreeAll (x :: xs) := hw _ (by simp [hl])
    cases x with
    | atom aty text =>
      refine ⟨⟨renderAtom aty text ++ t, ?_⟩, hlevels⟩
      change atomPieces (.atom aty text) ++ w.next.1 = _
      rw [ht, List.map_append]
      rfl
    | binary data => exact htop.1.elim
    | list elems => exact absurd rfl (hlist elems)

/-- So a traversal of text meets no clash. -/
lemma bytes_puts (h : w.Puts g ps w') (hw : ∀ level ∈ w.levels, BlobFreeAll level) :
    ∃ t : List Byte, ps = t.map .byte := by
  induction h with
  | refl w => exact ⟨[], rfl⟩
  | step hstep _ ih =>
    obtain ⟨⟨t, rfl⟩, hw'⟩ := bytes_step hstep hw
    obtain ⟨t', rfl⟩ := ih hw'
    exact ⟨t ++ t', by rw [List.map_append]⟩

lemma blobFree_start {x : Tree} {allocs : Nat} (hx : BlobFree x) :
    ∀ level ∈ (Walk.start g x allocs).levels, BlobFreeAll level := by
  have hone : ∀ level ∈ [[x]], BlobFreeAll level := by simpa [BlobFreeAll] using hx
  rw [Walk.start, Walk.push]
  split_ifs
  · exact hone
  · exact hone
  · intro level hlevel
    cases hlevel

end Traversal

/-- When nothing stops it, `print_sexp` spells the element with `m` bytes: it gets its copy and its
stack, and the traversal ends. -/
def Shows (g : Setup) (x : Sexp) (m : Nat) : Prop :=
  HeadCopied g x ∧ ∃ ps w', (Walk.start g x.tree (headAllocs x)).Puts g ps w' ∧
    w'.step g = none ∧ (spelled ps).length + w'.depth = m

/-- The copy of the element is not written past its end. -/
def Intact (g : Setup) : Sexp → Prop
  | .value _ _ valAllocated valUsed =>
    g.alloc 0 = true → g.alloc 1 = true → valUsed ≤ valAllocated
  | _ => True

section PrintSexp

variable {g : Setup} {x : Sexp} {size : Nat} {buf : List Byte} {errno : ErrCode}

lemma Shows.unique {m m' : Nat} (h : Shows g x m) (h' : Shows g x m') : m = m' := by
  obtain ⟨-, ps, w, hputs, hend, rfl⟩ := h
  obtain ⟨-, ps', w', hputs', hend', rfl⟩ := h'
  obtain ⟨rs, rfl, hrest⟩ := puts_determined hputs hputs' hend'
  cases hrest with
  | refl => rw [List.append_nil]
  | step hstep _ =>
    rw [hend] at hstep
    cases hstep

/-- With every allocation succeeding, what `print_sexp` shows is the rendering. -/
lemma shows_of_granted (hg : g.Succeeds) (hx : Sealed x) : Shows g x x.tree.render.length := by
  obtain ⟨w', hputs, hend, hdepth⟩ := puts_rendering hg hx (headAllocs x)
  refine ⟨⟨fun n _ => hg n, ?_⟩, _, w', hputs, hend, ?_⟩
  · rintro n rfl
    exact hx
  · rw [spelled_bytes, hdepth, Nat.add_zero]

/-- The copy of the first element: none at all, or one that prints as the original. -/
lemma copySexp_text (hx : Leaves TextAtom x) (hintact : Intact g x) (errno : ErrCode) :
    (∃ h, copySexp g [x.unlinked] ⟨0, errno⟩ = .ok ([], h) ∧ ¬ HeadCopied g x) ∨
      ∃ y, copySexp g [x.unlinked] ⟨0, errno⟩ = .ok ([y], ⟨headAllocs x - 1, errno⟩) ∧
        (HeadCopied g x ↔ g.alloc (headAllocs x - 1) = true) ∧ Legible (relink y x) ∧
        (relink y x).tree = x.tree := by
  cases x with
  | blob bindata binlength => exact hx.elim
  | list elems =>
    rw [headCopied_list]
    by_cases h0 : g.alloc 0 = true
    · refine .inr ⟨.list [], ?_, by simp [h0, headAllocs], legible_of_text _ hx, rfl⟩
      simp [Sexp.unlinked, copySexp, copyElement, h0, Except.map, headAllocs, Heap.next]
    · refine .inl ⟨Heap.fail ⟨0, errno⟩, ?_, by simp [h0]⟩
      simp [Sexp.unlinked, copySexp, copyElement, h0]
  | value aty val valAllocated valUsed =>
    obtain ⟨hbinary, hpos, hlen, hend, hcover⟩ := hx
    by_cases hused : valUsed ≤ valAllocated
    · have hprint : Printable (.value aty val valAllocated valUsed) :=
        ⟨hbinary, hpos, hlen, hused, hend, hcover⟩
      rcases copySexp_cases g hprint errno with hnone | ⟨y, hcopy, hhead, hy, htree⟩
      · exact .inl hnone
      · exact .inr ⟨y, hcopy, hhead, legible_of_printable _ hy, htree⟩
    · have hne : val ≠ [] := by
        rintro rfl
        simp at hlen
        omega
      have hno : ¬ HeadCopied g (.value aty val valAllocated valUsed) := by
        rw [headCopied_value]
        rintro ⟨h0, h1, -⟩
        exact hused (hintact h0 h1)
      by_cases h0 : g.alloc 0 = true
      · have h1 : g.alloc 1 ≠ true := fun h1 => hused (hintact h0 h1)
        refine .inl ⟨Heap.fail ⟨1, errno⟩, ?_, hno⟩
        simp [Sexp.unlinked, copySexp, copyElement, copyText, hne, h0, h1, Heap.next]
      · refine .inl ⟨Heap.fail ⟨0, errno⟩, ?_, hno⟩
        simp [Sexp.unlinked, copySexp, copyElement, h0]

/-- An atom that counts more bytes than its buffer has is copied past the end of the copy. -/
lemma printSexp_broken (hsize : 0 < size) (hx : Leaves TextAtom x) (hbroken : ¬ Intact g x) (n : Nat) :
    printSexp g n buf size [x] errno = .fault .atomBuffer := by
  cases x with
  | blob bindata binlength => exact hx.elim
  | list elems => exact absurd trivial hbroken
  | value aty val valAllocated valUsed =>
    obtain ⟨-, -, hlen, hend, -⟩ := hx
    have hne : val ≠ [] := by
      rintro rfl
      simp at hlen
      omega
    simp only [Intact, not_forall] at hbroken
    obtain ⟨h0, h1, hused⟩ := hbroken
    rw [printSexp, if_neg (by omega)]
    simp [Sexp.unlinked, copySexp, copyElement, copyText, hne, h0, h1, Heap.next, hused]

/-- The end of the function, from what the loop was left with. -/
lemma fillFinish_length {text : List Byte} {l : FillLocals} (hsize : 0 < size)
    (h : Holds size text l.toWindow) :
    ∃ p, fillFinish size (some (.inr l)) = .ret p ∧ p.cells.length = size ∧
      p.retval = if text.length + l.depth < size then toInt (text.length + l.depth) else -1 := by
  have hfills := fills_addParens hsize l.depth h
  have hlen : (text ++ spelled ((List.replicate l.depth rparen).map .byte)).length =
      text.length + l.depth := by
    rw [spelled_bytes, List.length_append, List.length_replicate]
  rw [fillFinish]
  cases hadd : addParens l.depth l.toWindow with
  | ok w =>
    rw [hadd] at hfills
    obtain ⟨-, hw⟩ := hfills
    obtain ⟨p, hp, hret, -, hended, -⟩ := endFill_ok hw l.errno
    have hlt := hw.lt
    rw [hlen] at hret hlt
    exact ⟨p, hp, hended.length, by rw [if_pos hlt, hret]⟩
  | error stop =>
    rw [hadd] at hfills
    cases stop with
    | full cells b =>
      obtain ⟨-, hfull, hended, -⟩ := hfills
      rw [hlen] at hfull
      exact ⟨_, rfl, hended.length, by rw [if_neg (by omega)]⟩
    | fault f => exact absurd hfills.2 (not_clash_bytes _)

/-- The result of `print_sexp`: what it shows if that fits, and -1 otherwise. -/
structure Returned (g : Setup) (x : Sexp) (size : Nat) (p : Filled) : Prop where
  length : p.cells.length = size
  retval : (∃ m, Shows g x m ∧ m < size ∧ p.retval = toInt m) ∨
    ((¬ ∃ m, Shows g x m ∧ m < size) ∧ p.retval = -1)

/-- A loop that is left, and the end of the function. -/
lemma eventually_of_halts {l : FillLocals} {r : FillStop ⊕ FillLocals} {p : Filled}
    (h : Loop.Halts (fillHead g) l r) (hp : fillFinish size (some r) = .ret p) :
    ∀ᶠ n in atTop, fillFinish size (Loop.run (fillHead g) n l) = .ret p := by
  obtain ⟨n, hn⟩ := h
  filter_upwards [eventually_ge_atTop n] with m hm
  rw [Loop.run_mono hm hn, hp]

lemma returned_of_copy {y : Sexp} {h : Heap} (hbuf : buf.length = size) (hsize : 0 < size)
    (hcopied : HeadCopied g x) (hblob : BlobFree x.tree) (hy : Legible y) (htree : y.tree = x.tree)
    (hallocs : h.allocs = headAllocs x) :
    ∃ p, (∀ᶠ n in atTop,
      fillFinish size (Loop.run (fillHead g) n (fillStart g buf size y h)) = .ret p) ∧
      Returned g x size p := by
  have ht : Tracks (fillStart g buf size y h) (Walk.start g x.tree (headAllocs x)) := by
    rw [← htree, ← hallocs]
    exact tracks_fillStart hy
  have hh : Holds size [] (fillStart g buf size y h).toWindow := holds_fillStart hbuf hsize
  obtain ⟨ps, w', hputs, hend⟩ := puts_many g (Walk.start g x.tree (headAllocs x)) size
  obtain ⟨t, rfl⟩ := bytes_puts hputs (blobFree_start hblob)
  obtain ⟨z, hz, hok, herror⟩ := fillsTo_puts hsize hputs ht hh
  rw [spelled_bytes] at hend
  -- the text that was put out when the printer stopped is a part of what it would show
  have hlong : ∀ m, Shows g x m → t.length ≤ m := by
    rintro m ⟨-, qs, w'', hputs', hend', rfl⟩
    obtain ⟨rs, rfl, -⟩ := puts_determined hputs hputs' hend'
    rw [spelled_append, spelled_bytes, List.length_append]
    omega
  match z, hz, hok, herror with
  | .ok v, ⟨_, hv⟩, hok, _ =>
    obtain ⟨l', hreach, hl', ht'⟩ := hok v rfl
    have hholds : Holds size ([] ++ spelled (t.map .byte)) l'.toWindow := hl' ▸ hv
    rw [spelled_bytes, List.nil_append] at hholds
    have hnone : w'.step g = none := by
      refine hend.resolve_right fun hlen => ?_
      have := hholds.lt
      omega
    have hexit : fillHead g l' = .error (.inr l') := by
      rcases round_step (g := g) hsize ht' hholds with ⟨-, hexit⟩ | ⟨_, _, hsome, -⟩
      · exact hexit
      · rw [hnone] at hsome
        cases hsome
    obtain ⟨p, hp, hlen, hret⟩ := fillFinish_length hsize hholds
    have hshows : Shows g x (t.length + l'.depth) := by
      refine ⟨hcopied, _, w', hputs, hnone, ?_⟩
      rw [spelled_bytes, ht'.depth]
    refine ⟨p, eventually_of_halts (Loop.halts_of_reaches hreach (Loop.halts_of_exit hexit)) hp,
      hlen, ?_⟩
    by_cases hfits : t.length + l'.depth < size
    · rw [if_pos hfits] at hret
      exact .inl ⟨_, hshows, hfits, hret⟩
    · rw [if_neg hfits] at hret
      refine .inr ⟨?_, hret⟩
      rintro ⟨m, hm, hlt⟩
      rw [hm.unique hshows] at hlt
      exact hfits hlt
  | .error (.full cells b), ⟨_, hfull, hended, _⟩, _, herror =>
    refine ⟨⟨-1, cells, .bufferFull, some b⟩, eventually_of_halts (herror _ rfl) rfl, hended.length,
      .inr ⟨?_, rfl⟩⟩
    rintro ⟨m, hm, hlt⟩
    rw [List.nil_append, spelled_bytes] at hfull
    exact absurd (hlong m hm) (by omega)
  | .error (.fault f), ⟨_, hclash⟩, _, _ => exact absurd hclash (not_clash_bytes _)

/-- What a call of `print_sexp` on a text expression returns. -/
lemma printSexp_returned (hbuf : buf.length = size) (hx : Leaves TextAtom x)
    (hintact : 0 < size → Intact g x) :
    ∃ p, (∀ᶠ n in atTop, printSexp g n buf size [x] errno = .ret p) ∧ Returned g x size p := by
  rcases Nat.eq_zero_or_pos size with rfl | hsize
  · refine ⟨⟨-1, buf, errno, none⟩, .of_forall fun n => ?_, hbuf, .inr ⟨?_, rfl⟩⟩
    · rw [printSexp, if_pos Nat.zero_lt_one]
    · rintro ⟨m, -, hlt⟩
      exact absurd hlt (Nat.not_lt_zero m)
  · have hrefused : ¬ HeadCopied g x → Returned g x size ⟨-1, buf, .memory, none⟩ := by
      intro hno
      refine ⟨hbuf, .inr ⟨?_, rfl⟩⟩
      rintro ⟨m, ⟨hcopied, -⟩, -⟩
      exact hno hcopied
    rcases copySexp_text hx (hintact hsize) errno with ⟨h, hcopy, hno⟩ | ⟨y, hcopy, hhead, hy, htree⟩
    · exact ⟨_, .of_forall fun n => printSexp_uncopied hsize hcopy n [], hrefused hno⟩
    · by_cases halloc : g.alloc (headAllocs x - 1) = true
      · have hallocs : (Heap.next ⟨headAllocs x - 1, errno⟩).allocs = headAllocs x := by
          cases x <;> rfl
        obtain ⟨p, hp, hret⟩ := returned_of_copy hbuf hsize (hhead.mpr halloc)
          (blobFree_of_text x hx) hy htree hallocs
        refine ⟨p, hp.mono fun n hn => ?_, hret⟩
        rw [printSexp_copied hsize hcopy, if_pos halloc, hn]
      · refine ⟨_, .of_forall fun n => ?_, hrefused fun h => halloc (hhead.mp h)⟩
        rw [printSexp_copied hsize hcopy, if_neg halloc]

end PrintSexp

section Levels

variable {gs : Nat → Setup} {size : Nat} {l : PcontLocals} {x : Sexp}

/-- The printer has not left its buffer. -/
structure Fit (size : Nat) (l : PcontLocals) : Prop where
  length : l.cells.length = size
  loc : l.loc ≤ size
  int : l.loc < 2 ^ 31

abbrev PlacesIn (gs : Nat → Setup) (size : Nat) :=
  Places (fun k => Shows (gs k)) (fun k => Intact (gs k)) size

abbrev LaysLevelIn (gs : Nat → Setup) (size : Nat) :=
  LaysLevel (fun k => Shows (gs k)) (fun k => Intact (gs k)) size

abbrev LaysIn (gs : Nat → Setup) (size : Nat) :=
  Lays (fun k => Shows (gs k)) (fun k => Intact (gs k)) size

lemma sizeSub_of_le {a b : Nat} (h : b ≤ a) : sizeSub a b = a - b := by
  unfold sizeSub
  split_ifs
  rfl

lemma toInt_le (m : Nat) : toInt m ≤ m := by
  have hmod : (m : Int) % ((2 ^ 32 : Nat) : Int) ≤ m := by
    rw [← Int.natCast_emod]
    exact Int.ofNat_le.mpr (Nat.mod_le m (2 ^ 32))
  unfold toInt
  rw [Int.bmod_def]
  split_ifs
  · exact hmod
  · exact Int.le_trans (Int.sub_le_self _ (Int.natCast_nonneg _)) hmod

lemma places_unique {k p r r' : Nat} (h : PlacesIn gs size k x p r)
    (h' : PlacesIn gs size k x p r') : r = r' := by
  cases h with
  | placed hintact hshows hfits hend hpos hint =>
    cases h' with
    | placed hintact' hshows' hfits' hend' hpos' hint' =>
      obtain rfl := hshows.unique hshows'
      omega
    | passed hintact' hfull' hpos' => exact absurd ⟨_, hshows, hfits⟩ hfull'
  | passed hintact hfull hpos =>
    cases h' with
    | placed hintact' hshows' hfits' hend' hpos' hint' => exact absurd ⟨_, hshows', hfits'⟩ hfull
    | passed hintact' hfull' hpos' => rfl

/-- The call of `print_sexp`, with the rest of the buffer. -/
lemma callPrintSexp_returned (hl : Fit size l) (hx : Leaves TextAtom x)
    (hintact : l.loc < size → Intact (gs l.calls) x) :
    ∃ p, (∀ᶠ n in atTop, l.callPrintSexp gs n x = .ok (p.retval, { l with
      cells := l.cells.take l.loc ++ p.cells, calls := l.calls + 1, errno := p.errno })) ∧
      Returned (gs l.calls) x (size - l.loc) p := by
  have hlen : (l.cells.drop l.loc).length = size - l.loc := by rw [List.length_drop, hl.length]
  have hsize : sizeSub l.cells.length l.loc = size - l.loc := by
    rw [hl.length, sizeSub_of_le hl.loc]
  obtain ⟨p, hp, hret⟩ := @printSexp_returned (gs l.calls) x _ _ l.errno hlen hx
    fun h => hintact (by omega)
  refine ⟨p, hp.mono fun n hn => ?_, hret⟩
  rw [PcontLocals.callPrintSexp, hsize, hn]

lemma put_ok {i : Nat} {c : Byte} (h : i < l.cells.length) :
    l.put i c = .ok { l with cells := l.cells.set i c } := by
  rw [PcontLocals.put, if_pos ⟨by omega, by omega⟩, Int.toNat_natCast]

lemma put_outside {i : Int} {c : Byte} (h : i < 0 ∨ l.cells.length ≤ i) :
    l.put i c = .error (.fault .string) := by
  rw [PcontLocals.put, if_neg (by omega)]

lemma advance_ok {n : Int} {r : Nat} (h : l.loc + n = r) (hint : r < 2 ^ 31) :
    l.advance n = .ok { l with loc := r } := by
  have hlt : (l.loc : Int) + n < 2 ^ 31 := by omega
  rw [PcontLocals.advance, if_pos hlt, h, Int.toNat_natCast]

lemma advance_overflow {n : Int} (h : 2 ^ 31 ≤ l.loc + n) : l.advance n = .error .overflow := by
  have hge : ¬ (l.loc : Int) + n < 2 ^ 31 := by omega
  rw [PcontLocals.advance, if_neg hge]

/-- An element and its space: they are placed as the layout places them, and what the layout has no
place for is undefined. -/
lemma printElement_outcome (hl : Fit size l) (hx : Leaves TextAtom x) :
    (∃ l', PlacesIn gs size l.calls x l.loc l'.loc ∧ Fit size l' ∧ l'.calls = l.calls + 1 ∧
      ∀ᶠ n in atTop, l.printElement gs n x = .ok l') ∨
    ((¬ ∃ r, PlacesIn gs size l.calls x l.loc r) ∧
      ∃ e, ∀ᶠ n in atTop, l.printElement gs n x = .error e) := by
  by_cases hintact : l.loc < size → Intact (gs l.calls) x
  · obtain ⟨p, hp, hret⟩ := callPrintSexp_returned hl hx hintact
    obtain ⟨l₁, hl₁⟩ : ∃ l₁ : PcontLocals, l₁ = { l with
        cells := l.cells.take l.loc ++ p.cells, calls := l.calls + 1, errno := p.errno } := ⟨_, rfl⟩
    have hloc : l₁.loc = l.loc := by rw [hl₁]
    have hcalls : l₁.calls = l.calls + 1 := by rw [hl₁]
    have hcells : l₁.cells.length = size := by
      have := hl.length
      have := hl.loc
      rw [hl₁]
      simp [hret.length]
      omega
    have hrun : ∀ᶠ n in atTop, l.printElement gs n x =
        (l₁.put (l₁.loc + p.retval) space >>= fun l => l.advance (p.retval + 1)) := by
      refine hp.mono fun n hn => ?_
      rw [PcontLocals.printElement, hn, hl₁]
      rfl
    rcases hret.retval with ⟨m, hshows, hm, hn⟩ | ⟨hno, hn⟩
    · have hle := toInt_le m
      by_cases hback : (l.loc : Int) + toInt m + 1 ≤ 0
      · refine .inr ⟨?_, .fault .string, hrun.mono fun n hn' => ?_⟩
        · rintro ⟨r, hplaces⟩
          cases hplaces with
          | placed hintact' hshows' hfits' hend hpos hint =>
            obtain rfl := hshows.unique hshows'
            omega
          | passed hintact' hfull hpos => exact hfull ⟨m, hshows, by omega⟩
        · rw [hn', hn, put_outside (.inl (by omega))]
          rfl
      · obtain ⟨i, hi⟩ := Int.eq_ofNat_of_zero_le (a := l.loc + toInt m) (by omega)
        have hput : ∀ᶠ n in atTop, l.printElement gs n x =
            PcontLocals.advance (toInt m + 1) { l₁ with cells := l₁.cells.set i space } := by
          refine hrun.mono fun n hn' => ?_
          have hat : (l₁.loc : Int) + toInt m = i := by omega
          rw [hn', hn, hat, put_ok (by omega), except_bind]
        by_cases hint : i + 1 < 2 ^ 31
        · refine .inl ⟨{ l₁ with cells := l₁.cells.set i space, loc := i + 1 }, ?_, ?_, hcalls, ?_⟩
          · exact .placed (hintact (by omega)) hshows (by omega) (by dsimp only; omega)
              (Nat.succ_pos i) hint
          · exact ⟨by simpa using hcells, by dsimp only; omega, hint⟩
          · refine hput.mono fun n hn' => ?_
            rw [hn', advance_ok (r := i + 1) (by dsimp only; omega) hint]
        · refine .inr ⟨?_, .overflow, hput.mono fun n hn' => ?_⟩
          · rintro ⟨r, hplaces⟩
            cases hplaces with
            | placed hintact' hshows' hfits' hend hpos hint' =>
              obtain rfl := hshows.unique hshows'
              omega
            | passed hintact' hfull hpos => exact hfull ⟨m, hshows, by omega⟩
          · rw [hn', advance_overflow (by dsimp only; omega)]
    · have hfull : ¬ FitsAt (fun k => Shows (gs k)) size l.calls x l.loc := by
        rintro ⟨m, hm, hlt⟩
        exact hno ⟨m, hm, by omega⟩
      rcases Nat.eq_zero_or_pos l.loc with hzero | hpos
      · refine .inr ⟨?_, .fault .string, hrun.mono fun n hn' => ?_⟩
        · rintro ⟨r, hplaces⟩
          cases hplaces with
          | placed hintact' hshows' hfits' hend hpos hint => exact hfull ⟨_, hshows', hfits'⟩
          | passed hintact' hfull' hpos => omega
        · rw [hn', hn, put_outside (.inl (by omega))]
          rfl
      · obtain ⟨i, hi⟩ : ∃ i, l.loc = i + 1 := ⟨l.loc - 1, by omega⟩
        refine .inl ⟨{ l₁ with cells := l₁.cells.set i space }, ?_, ?_, hcalls, ?_⟩
        · dsimp only
          rw [hloc]
          exact .passed hintact hfull hpos
        · refine ⟨by simpa using hcells, ?_, ?_⟩
          · exact hloc ▸ hl.loc
          · exact hloc ▸ hl.int
        · refine hrun.mono fun n hn' => ?_
          have hat : (l₁.loc : Int) + -1 = i := by omega
          have hsize := hl.loc
          rw [hn', hn, hat, put_ok (by omega), except_bind,
            advance_ok (r := l₁.loc) (by dsimp only; omega) (hloc ▸ hl.int)]
  · rw [Classical.not_imp] at hintact
    obtain ⟨hroom, hbroken⟩ := hintact
    refine .inr ⟨?_, .fault .atomBuffer, .of_forall fun n => ?_⟩
    · rintro ⟨r, hplaces⟩
      cases hplaces with
      | placed hintact' hshows' hfits' hend hpos hint => exact hbroken hintact'
      | passed hintact' hfull' hpos => exact hbroken (hintact' hroom)
    · have hsize : 0 < sizeSub l.cells.length l.loc := by
        rw [hl.length, sizeSub_of_le hl.loc]
        omega
      rw [PcontLocals.printElement, PcontLocals.callPrintSexp, printSexp_broken hsize hx hbroken]
      rfl

lemma laysLevel_unique {xs : List Sexp} {k p k' q k'' q' : Nat}
    (h : LaysLevelIn gs size xs k p k' q) (h' : LaysLevelIn gs size xs k p k'' q') :
    k' = k'' ∧ q = q' := by
  induction h with
  | done k p =>
    cases h'
    exact ⟨rfl, rfl⟩
  | opened hroom hint =>
    cases h' with
    | opened hroom' hint' => exact ⟨rfl, rfl⟩
    | element hlist hplaces hrest => exact absurd rfl hlist
  | element hlist hplaces hrest ih =>
    cases h' with
    | opened hroom' hint' => exact absurd rfl hlist
    | element hlist' hplaces' hrest' =>
      obtain rfl := places_unique hplaces hplaces'
      exact ih hrest'

lemma lays_unique {levels : List (List Sexp)} {k p q q' : Nat}
    (h : LaysIn gs size levels k p q) (h' : LaysIn gs size levels k p q') : q = q' := by
  induction h with
  | done k p =>
    cases h'
    rfl
  | full hfull =>
    cases h' with
    | full hfull' => rfl
    | level hroom hlevel hrest => omega
  | level hroom hlevel hrest ih =>
    cases h' with
    | full hfull' => omega
    | level hroom' hlevel' hrest' =>
      obtain ⟨rfl, rfl⟩ := laysLevel_unique hlevel hlevel'
      exact ih hrest'

/-- The paren of a list that is taken for an open one. -/
lemma printOpen_outcome (hl : Fit size l) :
    (∃ l', (l.loc < size ∧ l.loc + 1 < 2 ^ 31) ∧ l'.loc = l.loc + 1 ∧ l'.calls = l.calls ∧
      Fit size l' ∧ l.printOpen = .ok l') ∨
    (¬ (l.loc < size ∧ l.loc + 1 < 2 ^ 31) ∧ ∃ e, l.printOpen = .error e) := by
  by_cases hroom : l.loc < size
  · have hput : l.printOpen = PcontLocals.advance 1 { l with cells := l.cells.set l.loc lparen } := by
      rw [PcontLocals.printOpen, put_ok (by rw [hl.length]; exact hroom), except_bind]
    by_cases hint : l.loc + 1 < 2 ^ 31
    · refine .inl ⟨{ l with cells := l.cells.set l.loc lparen, loc := l.loc + 1 }, ⟨hroom, hint⟩,
        rfl, rfl, ⟨?_, hroom, hint⟩, ?_⟩
      · simpa using hl.length
      · rw [hput, advance_ok (r := l.loc + 1) (by dsimp only; omega) hint]
    · refine .inr ⟨fun h => hint h.2, .overflow, ?_⟩
      rw [hput, advance_overflow (by dsimp only; omega)]
  · refine .inr ⟨fun h => hroom h.1, .fault .string, ?_⟩
    have hout : l.put (l.loc : Int) lparen = .error (.fault .string) := by
      have := hl.length
      exact put_outside (.inr (by omega))
    rw [PcontLocals.printOpen, hout]
    rfl

/-- The elements of a level. -/
lemma printLevel_outcome (xs : List Sexp) (hl : Fit size l) (hxs : LeavesAll TextAtom xs) :
    (∃ l', LaysLevelIn gs size xs l.calls l.loc l'.calls l'.loc ∧ Fit size l' ∧
      ∀ᶠ n in atTop, l.printLevel gs n xs = .ok l') ∨
    ((¬ ∃ k r, LaysLevelIn gs size xs l.calls l.loc k r) ∧
      ∃ e, ∀ᶠ n in atTop, l.printLevel gs n xs = .error e) := by
  induction xs generalizing l with
  | nil => exact .inl ⟨l, .done _ _, hl, .of_forall fun n => rfl⟩
  | cons x xs ih =>
    by_cases hlist : x = .list []
    · subst hlist
      rcases printOpen_outcome hl with ⟨l', ⟨hroom, hint⟩, hloc, hcalls, hl', hrun⟩ | ⟨hno, e, hrun⟩
      · refine .inl ⟨l', ?_, hl', .of_forall fun n => hrun⟩
        rw [hloc, hcalls]
        exact .opened hroom hint
      · refine .inr ⟨?_, e, .of_forall fun n => hrun⟩
        rintro ⟨k, r, hlays⟩
        cases hlays with
        | opened hroom hint => exact hno ⟨hroom, hint⟩
        | element hlist hplaces hrest => exact hlist rfl
    · have hstep : ∀ n, l.printLevel gs n (x :: xs) =
          (l.printElement gs n x >>= fun l => l.printLevel gs n xs) := by
        intro n
        rw [PcontLocals.printLevel]
        rintro rfl
        exact hlist rfl
      rcases printElement_outcome hl hxs.1 with ⟨l₁, hplaces, hl₁, hcalls, hrun⟩ | ⟨hno, e, hrun⟩
      · rcases ih hl₁ hxs.2 with ⟨l₂, hlays, hl₂, hrest⟩ | ⟨hno, e, hrest⟩
        · rw [hcalls] at hlays
          refine .inl ⟨l₂, .element hlist hplaces hlays, hl₂, ?_⟩
          filter_upwards [hrun, hrest] with n hn hn'
          rw [hstep, hn, except_bind, hn']
        · rw [hcalls] at hno
          refine .inr ⟨?_, e, ?_⟩
          · rintro ⟨k, r, hlays⟩
            cases hlays with
            | opened hroom hint => exact hlist rfl
            | element hlist' hplaces' hrest' =>
              obtain rfl := places_unique hplaces hplaces'
              exact hno ⟨k, r, hrest'⟩
          · filter_upwards [hrun, hrest] with n hn hn'
            rw [hstep, hn, except_bind, hn']
      · refine .inr ⟨?_, e, ?_⟩
        · rintro ⟨k, r, hlays⟩
          cases hlays with
          | opened hroom hint => exact hlist rfl
          | element hlist' hplaces hrest => exact hno ⟨_, hplaces⟩
        · filter_upwards [hrun] with n hn
          rw [hstep, hn]
          rfl

/-- The levels, from the bottom of the stack. -/
lemma printLevels_outcome (levels : List (List Sexp)) (hl : Fit size l)
    (hlevels : ∀ T ∈ levels, LeavesAll TextAtom T) (hsize : 0 < size) :
    (∃ l', LaysIn gs size levels l.calls l.loc l'.loc ∧ Fit size l' ∧
      ∀ᶠ n in atTop, l.printLevels gs n levels = .ok l') ∨
    ((¬ ∃ q, LaysIn gs size levels l.calls l.loc q) ∧
      ∃ e, ∀ᶠ n in atTop, l.printLevels gs n levels = .error e) := by
  induction levels generalizing l with
  | nil => exact .inl ⟨l, .done _ _, hl, .of_forall fun n => rfl⟩
  | cons level above ih =>
    obtain ⟨hlevel, habove⟩ := List.forall_mem_cons.mp hlevels
    have hguard : sizeSub l.cells.length 1 = size - 1 := by rw [hl.length, sizeSub_of_le hsize]
    by_cases hroom : l.loc + 1 < size
    · have hstep : ∀ n, l.printLevels gs n (level :: above) =
          (l.printLevel gs n level >>= fun l => l.printLevels gs n above) := by
        intro n
        rw [PcontLocals.printLevels, hguard, if_pos (by omega)]
      rcases printLevel_outcome level hl hlevel with ⟨l₁, hlays, hl₁, hrun⟩ | ⟨hno, e, hrun⟩
      · rcases ih hl₁ habove with ⟨l₂, hrest, hl₂, hrun'⟩ | ⟨hno, e, hrun'⟩
        · refine .inl ⟨l₂, .level hroom hlays hrest, hl₂, ?_⟩
          filter_upwards [hrun, hrun'] with n hn hn'
          rw [hstep, hn, except_bind, hn']
        · refine .inr ⟨?_, e, ?_⟩
          · rintro ⟨q, hq⟩
            cases hq with
            | full hfull => omega
            | level hroom' hlays' hrest' =>
              obtain ⟨rfl, rfl⟩ := laysLevel_unique hlays hlays'
              exact hno ⟨q, hrest'⟩
          · filter_upwards [hrun, hrun'] with n hn hn'
            rw [hstep, hn, except_bind, hn']
      · refine .inr ⟨?_, e, ?_⟩
        · rintro ⟨q, hq⟩
          cases hq with
          | full hfull => omega
          | level hroom' hlays hrest => exact hno ⟨_, _, hlays⟩
        · filter_upwards [hrun] with n hn
          rw [hstep, hn]
          rfl
    · refine .inl ⟨l, .full (by omega), hl, .of_forall fun n => ?_⟩
      rw [PcontLocals.printLevels, hguard, if_neg (by omega)]

end Levels

section Token

variable {gs : Nat → Setup} {size : Nat} {l : PcontLocals}

/-- What is copied of a token of `used` bytes to position `q`. -/
def tokenLength (size q used : Nat) : Nat := if used + 1 < size - q then used else size - q - 2

/-- So many bytes can be copied from a buffer: it is as long, or a NUL ends the string in it. -/
def Copyable (n : Nat) (val : List Byte) : Prop := n ≤ val.length ∨ nul ∈ val

lemma strncpy_ok {n : Nat} {val : List Byte} (h : Copyable n val) :
    strncpy n val = .ok ((cstr val).take n ++ List.replicate (n - (cstr val).length) nul) :=
  if_pos h

lemma strncpy_short {n : Nat} {val : List Byte} (h : ¬ Copyable n val) :
    strncpy n val = .error .atomBuffer := if_neg h

lemma length_strncpy {n : Nat} {val text : List Byte} (h : strncpy n val = .ok text) :
    text.length = n := by
  rw [strncpy] at h
  split_ifs at h
  cases h
  simp
  omega

lemma tokenRoom_eq (hl : Fit size l) (hroom : l.loc < size) (used : Nat) :
    l.tokenRoom used = tokenLength size l.loc used := by
  rw [PcontLocals.tokenRoom, tokenLength, hl.length, sizeSub_of_le hl.loc,
    sizeSub_of_le (a := size - l.loc) (by omega)]
  split_ifs <;> omega

/-- The token and the terminator behind it, while a cell is left. -/
lemma printToken_room (hl : Fit size l) (hroom : l.loc < size) (val : List Byte) (used : Nat) :
    (Copyable (tokenLength size l.loc used) val ∧ ∃ p, l.printToken val used = .ok p ∧
      p.nulAt < size ∧ p.cells[p.nulAt]? = some nul) ∨
    (¬ Copyable (tokenLength size l.loc used) val ∧ ∃ e, l.printToken val used = .error e) := by
  have hlen : l.loc + tokenLength size l.loc used < size := by
    rw [tokenLength]
    split_ifs <;> omega
  have hn := tokenRoom_eq hl hroom used
  by_cases hcopy : Copyable (tokenLength size l.loc used) val
  · obtain ⟨text, htext⟩ : ∃ text, strncpy (tokenLength size l.loc used) val = .ok text :=
      ⟨_, strncpy_ok hcopy⟩
    have htlen := length_strncpy htext
    have hsize := hl.length
    obtain ⟨l₁, hl₁⟩ : ∃ l₁ : PcontLocals, l₁ = { l with
        cells := l.cells.take l.loc ++ text ++
          l.cells.drop (l.loc + tokenLength size l.loc used) } := ⟨_, rfl⟩
    have hcells : l₁.cells.length = size := by
      rw [hl₁]
      simp
      omega
    have hloc : l₁.loc = l.loc := by rw [hl₁]
    have hput := @put_ok l₁ (l.loc + tokenLength size l.loc used) nul (by omega)
    rw [Int.natCast_add] at hput
    refine .inl ⟨hcopy, ⟨l₁.cells.set (l.loc + tokenLength size l.loc used) nul,
      l.loc + tokenLength size l.loc used, l₁.errno⟩, ?_, hlen, ?_⟩
    · rw [PcontLocals.printToken, hn, PcontLocals.copyToken, htext]
      dsimp only
      rw [if_pos (by omega), except_bind, ← hl₁, hloc, hput, except_bind]
      dsimp only
      rw [hloc]
    · have hlt : l.loc + tokenLength size l.loc used < l₁.cells.length := by omega
      simp [hlt]
  · refine .inr ⟨hcopy, .fault .atomBuffer, ?_⟩
    rw [PcontLocals.printToken, hn, PcontLocals.copyToken, strncpy_short hcopy]
    rfl

/-- Behind the last cell there is no place for the terminator. -/
lemma printToken_full (hl : Fit size l) (hfull : l.loc = size) (val : List Byte) (used : Nat) :
    ∃ e, l.printToken val used = .error e := by
  have hsize := hl.length
  rw [PcontLocals.printToken]
  cases hcopy : l.copyToken (l.tokenRoom used) val with
  | error e => exact ⟨e, rfl⟩
  | ok l₁ =>
    have hsame : l₁.loc = l.loc ∧ l₁.cells.length = size := by
      rw [PcontLocals.copyToken] at hcopy
      cases htext : strncpy (l.tokenRoom used) val with
      | error f =>
        rw [htext] at hcopy
        cases hcopy
      | ok text =>
        have htlen := length_strncpy htext
        rw [htext] at hcopy
        dsimp only at hcopy
        split_ifs at hcopy
        cases hcopy
        refine ⟨rfl, ?_⟩
        simp
        omega
    refine ⟨.fault .string, ?_⟩
    rw [except_bind, put_outside (.inr (by omega))]
    rfl

end Token

section Bounds

variable {gs : Nat → Setup} {n m : Nat}

/-- A computation with a larger bound ends as the one with the smaller bound, if that ended. -/
def Extends {α : Type} (x y : PcontExec α) : Prop := x = .error .diverges ∨ y = x

lemma Extends.bind {α β : Type} {x y : PcontExec α} {f f' : α → PcontExec β} (hx : Extends x y)
    (hf : ∀ a, Extends (f a) (f' a)) : Extends (x >>= f) (y >>= f') := by
  rcases hx with rfl | rfl
  · exact .inl rfl
  · cases y with
    | error e => exact .inr rfl
    | ok a => exact hf a

lemma printSexp_mono {g : Setup} {buf : List Byte} {size : Nat} {sx : List Sexp} {errno : ErrCode}
    (hnm : n ≤ m) : printSexp g n buf size sx errno = .diverges ∨
      printSexp g m buf size sx errno = printSexp g n buf size sx errno := by
  cases sx with
  | nil => exact .inr rfl
  | cons x xs =>
    rw [printSexp, printSexp]
    split_ifs
    · exact .inr rfl
    · split
      · exact .inr rfl
      · exact .inr rfl
      · split_ifs
        · exact .inr rfl
        · dsimp only
          cases hrun : Loop.run (fillHead g) n _ with
          | none => exact .inl rfl
          | some r => exact .inr (by rw [Loop.run_mono hnm hrun])

lemma extends_printElement {x : Sexp} {l : PcontLocals} (hnm : n ≤ m) :
    Extends (l.printElement gs n x) (l.printElement gs m x) := by
  apply Extends.bind
  · rw [PcontLocals.callPrintSexp, PcontLocals.callPrintSexp]
    rcases @printSexp_mono n m (gs l.calls) (l.cells.drop l.loc)
      (sizeSub l.cells.length l.loc) [x] l.errno hnm with h | h
    · rw [h]
      exact .inl rfl
    · rw [h]
      exact .inr rfl
  · exact fun _ => .inr rfl

lemma extends_printLevel {xs : List Sexp} {l : PcontLocals} (hnm : n ≤ m) :
    Extends (l.printLevel gs n xs) (l.printLevel gs m xs) := by
  induction xs generalizing l with
  | nil => exact .inr rfl
  | cons x xs ih =>
    by_cases hlist : x = .list []
    · subst hlist
      exact .inr rfl
    · rw [PcontLocals.printLevel, PcontLocals.printLevel]
      · exact (extends_printElement hnm).bind fun l => ih
      · rintro rfl
        exact hlist rfl
      · rintro rfl
        exact hlist rfl

lemma extends_printPcont {pc : Pcont} {buf : List Byte} {errno : ErrCode} (hnm : n ≤ m) :
    Extends (printPcont gs n pc buf errno) (printPcont gs m pc buf errno) := by
  have hlevels : ∀ (levels : List (List Sexp)) (l : PcontLocals),
      Extends (l.printLevels gs n levels) (l.printLevels gs m levels) := by
    intro levels
    induction levels with
    | nil => exact fun _ => .inr rfl
    | cons level above ih =>
      intro l
      rw [PcontLocals.printLevels, PcontLocals.printLevels]
      split_ifs
      · exact (extends_printLevel hnm).bind ih
      · exact .inr rfl
  exact (hlevels _ _).bind fun _ => .inr rfl

/-- A call that was computed ends so with every larger bound. -/
lemma printPcont_eventually {pc : Pcont} {buf : List Byte} {errno : ErrCode}
    {x : PcontExec PcontPrinted} (h : printPcont gs n pc buf errno = x)
    (hx : x.stopOf ≠ some .diverges) : ∀ᶠ m in atTop, printPcont gs m pc buf errno = x := by
  filter_upwards [eventually_ge_atTop n] with m hge
  rcases @extends_printPcont gs n m pc buf errno hge with hdiverges | hsame
  · rw [← h, hdiverges] at hx
    exact absurd rfl hx
  · rw [hsame, h]

end Bounds

section Theorems

/-- `print_pcont` stays inside its buffer: it returns and leaves a NUL in it, its last write. A write
outside of a buffer is undefined, so a call that returns made none. -/
def PcontInside (gs : Nat → Setup) (pc : Pcont) (buf : List Byte) (errno : ErrCode) : Prop :=
  ∃ p, (∀ᶠ n in atTop, printPcont gs n pc buf errno = .ok p) ∧ p.nulAt < buf.length ∧
    p.cells[p.nulAt]? = some nul

/-- The elements on the levels can be laid out in front of the last cell, and the token behind them
can be read. -/
def PcontFits (gs : Nat → Setup) (pc : Pcont) (size : Nat) : Prop :=
  ∃ q < size, LaysIn gs size pc.stack.levels.reverse 0 0 q ∧
    Copyable (tokenLength size q pc.valUsed) pc.val

/-- For every continuation of calls in mode `PARSER_NORMAL`, whatever was allocated, `print_pcont`
stays inside its buffer exactly when the half-built expression fits it so. -/
theorem print_pcont_inside {C : Env → Locals → Prop} (hC : ∀ env l, C env l → l.mode = .normal)
    {pc : Pcont} (hpc : Session C pc) {buf : List Byte} (hbuf : 0 < buf.length)
    (gs : Nat → Setup) (errno : ErrCode) :
    PcontInside gs pc buf errno ↔ PcontFits gs pc buf.length := by
  have hlevels : ∀ T ∈ pc.stack.levels.reverse, LeavesAll TextAtom T := by
    intro T hT
    exact (plain_of_session hC hpc).levels T (List.mem_reverse.mp hT)
  have hstart : Fit buf.length ⟨buf, 0, 0, errno⟩ := ⟨rfl, Nat.zero_le _, Nat.two_pow_pos 31⟩
  have herror : ∀ e, (∀ᶠ n in atTop, printPcont gs n pc buf errno = .error e) →
      ¬ PcontInside gs pc buf errno := by
    rintro e he ⟨p, hp, -⟩
    obtain ⟨n, hn, hn'⟩ := (he.and hp).exists
    rw [hn] at hn'
    cases hn'
  rcases @printLevels_outcome gs buf.length _ pc.stack.levels.reverse hstart hlevels hbuf with
    ⟨l', hlays, hl', hrun⟩ | ⟨hno, e, hrun⟩
  · have htail : ∀ᶠ n in atTop, printPcont gs n pc buf errno = l'.printToken pc.val pc.valUsed := by
      filter_upwards [hrun] with n hn
      rw [printPcont, hn, except_bind]
    rcases Nat.lt_or_eq_of_le hl'.loc with hroom | hfull
    · rcases printToken_room hl' hroom pc.val pc.valUsed with
        ⟨hcopy, p, hp, hnul, hend⟩ | ⟨hcopy, e, he⟩
      · refine ⟨fun _ => ⟨l'.loc, hroom, hlays, hcopy⟩, fun _ => ⟨p, ?_, hnul, hend⟩⟩
        filter_upwards [htail] with n hn
        rw [hn, hp]
      · refine ⟨fun h => absurd h (herror e ?_), ?_⟩
        · filter_upwards [htail] with n hn
          rw [hn, he]
        · rintro ⟨q, hq, hlays', hcopy'⟩
          rw [← lays_unique hlays hlays'] at hcopy'
          exact absurd hcopy' hcopy
    · obtain ⟨e, he⟩ := printToken_full hl' hfull pc.val pc.valUsed
      refine ⟨fun h => absurd h (herror e ?_), ?_⟩
      · filter_upwards [htail] with n hn
        rw [hn, he]
      · rintro ⟨q, hq, hlays', -⟩
        rw [← lays_unique hlays hlays', hfull] at hq
        exact absurd hq (lt_irrefl _)
  · refine ⟨fun h => absurd h (herror e ?_), ?_⟩
    · filter_upwards [hrun] with n hn
      rw [printPcont, hn]
      rfl
    · rintro ⟨q, -, hlays, -⟩
      exact absurd ⟨q, hlays⟩ hno

/-- A client passes `(a "x y" (b` and then ` cd`. -/
def nestedStart : Call :=
  .plain [lparen, 97, space, dquote, 120, space, 121, dquote, space, lparen, 98]

def nestedRest : Call := .plain [space, 99, 100]

/-- `(a "x y" (b ` fits 13 cells with its terminator, which leaves no room for the token `cd`. -/
theorem print_pcont_inside_nested :
    ∃ pc p, Session NormalRound pc ∧ pc.stack.levels.map List.length = [1, 3, 1] ∧ pc.valUsed = 2 ∧
      printPcont (fun _ => .plain) 60 pc (List.replicate 13 bang) .ok = .ok p ∧
      p.cells = [lparen, 97, space, dquote, 120, space, 121, dquote, space, lparen, 98, space, nul] ∧
      PcontInside (fun _ => .plain) pc (List.replicate 13 bang) .ok ∧
      PcontFits (fun _ => .plain) pc (List.replicate 13 bang).length := by
  have hcheck : ((cparseSexp .plain (some nestedStart.buf) nestedStart.len
      (some (Pcont.new .plain)) .ok).returnOf.bind fun r₁ =>
        (cparseSexp .plain (some nestedRest.buf) nestedRest.len (some r₁.cc)
          .ok).returnOf.bind fun r =>
            (printPcont (fun _ => .plain) 60 r.cc (List.replicate 13 bang) .ok).toOption.map fun p =>
              decide ((r.cc.stack.levels.map List.length = [1, 3, 1] ∧ r.cc.valUsed = 2) ∧
                (p.nulAt = 12 ∧ p.cells = [lparen, 97, space, dquote, 120, space, 121, dquote,
                  space, lparen, 98, space, nul]) ∧
                (∀ m ∈ Loop.heads (nestedStart.head (Pcont.new .plain)) (fuel nestedStart.env)
                  ((Pcont.new .plain).enter 0), m.mode = .normal) ∧
                ∀ m ∈ Loop.heads (nestedRest.head r₁.cc) (fuel nestedRest.env) (r₁.cc.enter 0),
                  m.mode = .normal)) = some true := by
    decide +kernel
  obtain ⟨r₁, hret₁, hcheck⟩ := Option.bind_eq_some_iff.mp hcheck
  obtain ⟨r, hret, hcheck⟩ := Option.bind_eq_some_iff.mp hcheck
  obtain ⟨p, hprinted, hcheck⟩ := Option.map_eq_some_iff.mp hcheck
  obtain ⟨⟨hlevels, hused⟩, ⟨hnul, hcells⟩, hfirst, hsecond⟩ := of_decide_eq_true hcheck
  have hpc : Session NormalRound r.cc :=
    .of_call (k := nestedRest) (.of_call (k := nestedStart)
      (.start (initContinuation_of_succeeds fun _ => rfl)) hret₁ hfirst) hret hsecond
  have hrun : printPcont (fun _ => .plain) 60 r.cc (List.replicate 13 bang) .ok = .ok p := by
    cases hx : printPcont (fun _ => .plain) 60 r.cc (List.replicate 13 bang) .ok with
    | ok p' =>
      rw [hx] at hprinted
      cases hprinted
      rfl
    | error e =>
      rw [hx] at hprinted
      cases hprinted
  have hinside : PcontInside (fun _ => .plain) r.cc (List.replicate 13 bang) .ok := by
    refine ⟨p, printPcont_eventually hrun nofun, ?_, ?_⟩
    · rw [hnul]
      decide
    · rw [hnul, hcells]
      rfl
  exact ⟨r.cc, p, hpc, hlevels, hused, hrun, hcells, hinside,
    (print_pcont_inside (fun _ _ h => h) hpc (by decide) _ _).mp hinside⟩

end Theorems

/-- After `(a b` the list is open and `b` is not complete. In a buffer of three cells `(a ` ends at the
last one, the space that is left is computed as `(size_t) -1`, and the token is written behind it. -/
theorem exact_fit_overruns :
    ∃ r, (cparseSexp .plain (some [lparen, 97, space, 98, nul]) 4 none .ok).returnOf = some r ∧
      Session NormalRound r.cc ∧ ¬ PcontInside (fun _ => .plain) r.cc [nul, nul, nul] .ok := by
  have hstop : ((cparseSexp .plain (some [lparen, 97, space, 98, nul]) 4 none .ok).returnOf.map
      fun r => (printPcont (fun _ => .plain) 8 r.cc [nul, nul, nul] .ok).stopOf) =
        some (some (.fault .string)) := by
    decide +kernel
  obtain ⟨r, hr, hfault⟩ := Option.map_eq_some_iff.mp hstop
  refine ⟨r, hr, session_of_run (fun _ => rfl) hr (by decide +kernel), ?_⟩
  rintro ⟨p, hp, -⟩
  have hstops := @printPcont_eventually (fun _ => .plain) 8 r.cc [nul, nul, nul] .ok _ rfl
    (by rw [hfault]; decide)
  obtain ⟨n, hn, hn'⟩ := (hp.and hstops).exists
  rw [← hn', hn] at hfault
  cases hfault

end Sfsexp.Proofs
