import Sfsexp.Proofs.Printing
import Sfsexp.Spec.Copies

/-!
# `copy_sexp` copies what it has memory for

Of an expression whose fields agree, `copy_sexp` returns a structural copy exactly when all its
requests for memory are granted and no binary atom has `NULL` for its bytes. A failure at the first
element is reported as `NULL`; at any other it silently ends the chain.
-/

namespace Sfsexp.Proofs

open Sfsexp Spec

section Requests

variable {g : Setup} {m n a : Nat}

lemma granted_zero : Granted g 0 a := by
  intro i hi
  exact absurd hi (Nat.not_lt_zero i)

lemma granted_succ : Granted g (n + 1) a ↔ g.alloc a = true ∧ Granted g n (a + 1) := by
  constructor
  · intro h
    refine ⟨h 0 (by omega), ?_⟩
    intro i hi
    have hshift := h (i + 1) (by omega)
    rwa [show a + (i + 1) = a + 1 + i by omega] at hshift
  · rintro ⟨hfirst, hrest⟩ i hi
    by_cases hzero : i = 0
    · rw [hzero]
      exact hfirst
    · have hshift := hrest (i - 1) (by omega)
      rwa [show a + 1 + (i - 1) = a + i by omega] at hshift

lemma granted_one : Granted g 1 a ↔ g.alloc a = true := by
  rw [granted_succ, and_iff_left granted_zero]

lemma granted_two : Granted g 2 a ↔ g.alloc a = true ∧ g.alloc (a + 1) = true := by
  rw [granted_succ, granted_one]

lemma granted_add : Granted g (m + n) a ↔ Granted g m a ∧ Granted g n (a + m) := by
  induction m generalizing a with
  | zero => simp [granted_zero]
  | succ m ih =>
    rw [show m + 1 + n = m + n + 1 by omega, granted_succ, granted_succ, ih, and_assoc,
      show a + 1 + m = a + (m + 1) by omega]

lemma granted_of_succeeds (hg : g.Succeeds) : Granted g n a := fun _ _ => hg _

end Requests

/-- What a copy of the element `x` from the heap `h` leaves: an element that is the same exactly when
all requests are granted, or nothing when the element itself fails. -/
structure CopyOf (g : Setup) (x : Sexp) (h : Heap) (o : Option Sexp) (h' : Heap) : Prop where
  fails : o = none ↔ HeadFails g [x] h.allocs
  reported : o = none → Reported h'.errno
  same : (∃ y, o = some y ∧ SameElement x y) ↔ Granted g (copyAllocs x) h.allocs ∧ HasData x
  allocs : (∃ y, o = some y ∧ SameElement x y) → h'.allocs = h.allocs + copyAllocs x

/-- What a copy of the chain `xs` leaves. -/
structure CopiesOf (g : Setup) (xs : List Sexp) (h : Heap) (ys : List Sexp) (h' : Heap) : Prop where
  same : SameAll xs ys ↔ Granted g (copyAllocsAll xs) h.allocs ∧ HasDataAll xs
  allocs : SameAll xs ys → h'.allocs = h.allocs + copyAllocsAll xs

section Elements

variable {g : Setup} {h h' : Heap} {x y : Sexp}

/-- A copy that failed, for want of memory or of bytes. -/
lemma copyOf_none (hfails : HeadFails g [x] h.allocs) (herr : Reported h'.errno)
    (hmissing : ¬ (Granted g (copyAllocs x) h.allocs ∧ HasData x)) :
    CopyOf g x h none h' where
  fails := iff_of_true rfl hfails
  reported := fun _ => herr
  same := iff_of_false (by simp) hmissing
  allocs := by simp

/-- A copy that got everything it asked for. -/
lemma copyOf_some (hfails : ¬ HeadFails g [x] h.allocs) (hsame : SameElement x y)
    (hgot : Granted g (copyAllocs x) h.allocs) (hdata : HasData x)
    (hallocs : h'.allocs = h.allocs + copyAllocs x) : CopyOf g x h (some y) h' where
  fails := iff_of_false (by simp) hfails
  reported := by simp
  same := iff_of_true ⟨y, rfl, hsame⟩ ⟨hgot, hdata⟩
  allocs := fun _ => hallocs

/-- The node of an element, or the block for its data, is not to be had. -/
lemma copyOf_denied (herr : Reported h'.errno) (hdenied : ¬ Granted g (ownAllocs x) h.allocs)
    (hown : Granted g (copyAllocs x) h.allocs → Granted g (ownAllocs x) h.allocs) :
    CopyOf g x h none h' :=
  copyOf_none (.inr hdenied) herr fun hall => hdenied (hown hall.1)

lemma ownAllocs_pos (x : Sexp) : 0 < ownAllocs x := by
  cases x with
  | value aty val valAllocated valUsed =>
    simp only [ownAllocs, copyAllocs]
    split <;> omega
  | blob bindata binlength => simp [ownAllocs, copyAllocs]
  | list elems => simp [ownAllocs]

lemma ownAllocs_le (x : Sexp) : ownAllocs x ≤ copyAllocs x := by
  cases x with
  | list elems =>
    simp only [ownAllocs, copyAllocs]
    omega
  | _ => exact le_refl _

lemma granted_mono {m n a : Nat} (hmn : m ≤ n) (hn : Granted g n a) : Granted g m a :=
  fun i hi => hn i (Nat.lt_of_lt_of_le hi hmn)

/-- Without memory for its node no element is copied. -/
lemma copyElement_noNode (x : Sexp) (hnode : ¬ g.alloc h.allocs = true) :
    ∃ o h', copyElement g x h = .ok (o, h') ∧ CopyOf g x h o h' := by
  have hrun : copyElement g x h = .ok (none, h.fail) := by
    cases x <;> simp [copyElement, hnode]
  refine ⟨_, _, hrun, copyOf_denied (.inl rfl) ?_ (granted_mono (ownAllocs_le x))⟩
  intro hown
  exact hnode (hown 0 (ownAllocs_pos x))

end Elements

section Copies

variable {g : Setup}

lemma copyElement_text (aty : AtomT) (val : List Byte) (valAllocated valUsed : Nat)
    (hx : Consistent (.value aty val valAllocated valUsed)) (h : Heap) :
    ∃ o h', copyElement g (.value aty val valAllocated valUsed) h = .ok (o, h') ∧
      CopyOf g (.value aty val valAllocated valUsed) h o h' := by
  by_cases hnode : g.alloc h.allocs = true
  · by_cases hval : val = []
    · -- `val` is `NULL`, and so it is in the copy
      have hzero : valAllocated = 0 ∧ valUsed = 0 := by
        rcases hx with ⟨_, ha, hu⟩ | ⟨hlen, hu, _⟩
        · exact ⟨ha, hu⟩
        · rw [hval] at hlen
          simp only [List.length_nil] at hlen
          omega
      have hrun : copyElement g (.value aty val valAllocated valUsed) h =
          .ok (some (.value aty [] valAllocated valUsed), h.next) := by
        simp [copyElement, copyText, hnode, hval, hzero]
      have hcount : copyAllocs (.value aty val valAllocated valUsed) = 1 := if_pos hval
      have hgot : Granted g (copyAllocs (.value aty val valAllocated valUsed)) h.allocs := by
        rwa [hcount, granted_one]
      refine ⟨_, _, hrun, copyOf_some ?_ ?_ hgot trivial ?_⟩
      · rintro (⟨n, hblob⟩ | hdenied)
        · cases hblob
        · exact hdenied hgot
      · exact ⟨rfl, rfl, rfl, by simp [hval], by rw [hval], fun hne => absurd rfl hne⟩
      · rw [hcount]
        rfl
    · have hcount : copyAllocs (.value aty val valAllocated valUsed) = 2 := if_neg hval
      obtain ⟨hlen, hused, hend, hcover⟩ := hx.resolve_left fun hnull => hval hnull.1
      by_cases hblock : g.alloc (h.allocs + 1) = true
      · have hrun : copyElement g (.value aty val valAllocated valUsed) h =
            .ok (some (.value aty (val.take valUsed ++ List.replicate (valAllocated - valUsed) nul)
              valAllocated valUsed), h.next.next) := by
          simp [copyElement, copyText, hnode, hblock, hval, hused, hlen, Heap.next]
        have hgot : Granted g (copyAllocs (.value aty val valAllocated valUsed)) h.allocs := by
          rw [hcount, granted_two]
          exact ⟨hnode, hblock⟩
        refine ⟨_, _, hrun, copyOf_some ?_ ?_ hgot trivial ?_⟩
        · rintro (⟨n, hblob⟩ | hdenied)
          · cases hblob
          · exact hdenied hgot
        · have hcopy := cstr_copied hlen hused hend hcover
          have hcells : (val.take valUsed ++
              List.replicate (valAllocated - valUsed) nul).length ≠ 0 := by
            simp only [List.length_append, List.length_take, List.length_replicate]
            omega
          refine ⟨rfl, rfl, rfl, ?_, hcopy, fun _ => by rwa [hcopy]⟩
          exact iff_of_false (by rwa [← List.length_eq_zero_iff]) hval
        · rw [hcount]
          rfl
      · have hrun : copyElement g (.value aty val valAllocated valUsed) h =
            .ok (none, h.next.fail) := by
          simp [copyElement, copyText, hnode, hblock, hval, Heap.next]
        refine ⟨_, _, hrun, copyOf_denied (.inl rfl) ?_ id⟩
        change ¬ Granted g (copyAllocs (.value aty val valAllocated valUsed)) h.allocs
        rw [hcount, granted_two]
        exact fun hall => hblock hall.2
  · exact copyElement_noNode _ hnode

lemma copyElement_blob (bindata : Option (List Byte)) (binlength : Nat)
    (hx : Consistent (.blob bindata binlength)) (h : Heap) :
    ∃ o h', copyElement g (.blob bindata binlength) h = .ok (o, h') ∧
      CopyOf g (.blob bindata binlength) h o h' := by
  by_cases hnode : g.alloc h.allocs = true
  · cases bindata with
    | none =>
      -- `NULL` cannot be told from a block that was not granted
      have hrun : copyElement g (.blob none binlength) h =
          .ok (none, { h.next with errno := if 0 < binlength then .badContent else .memory }) := by
        simp [copyElement, copyBlob, hnode]
      have herr : Reported (if 0 < binlength then .badContent else .memory) := by
        by_cases hpos : 0 < binlength
        · rw [if_pos hpos]
          exact .inr rfl
        · rw [if_neg hpos]
          exact .inl rfl
      refine ⟨_, _, hrun, copyOf_none (.inl ⟨binlength, rfl⟩) herr ?_⟩
      rintro ⟨_, hdata⟩
      exact hdata rfl
    | some data =>
      have hlen : binlength ≤ data.length := hx data rfl
      by_cases hblock : g.alloc (h.allocs + 1) = true
      · have hrun : copyElement g (.blob (some data) binlength) h =
            .ok (some (.blob (some (data.take binlength)) binlength), h.next.next) := by
          simp [copyElement, copyBlob, hnode, hblock, hlen, Heap.next]
        have hgot : Granted g 2 h.allocs := granted_two.mpr ⟨hnode, hblock⟩
        refine ⟨_, _, hrun, copyOf_some ?_ ⟨rfl, rfl⟩ hgot (Option.some_ne_none _) rfl⟩
        rintro (⟨n, hnone⟩ | hdenied)
        · cases hnone
        · exact hdenied hgot
      · have hrun : copyElement g (.blob (some data) binlength) h = .ok (none, h.next.fail) := by
          simp [copyElement, copyBlob, hnode, hblock, Heap.next]
        refine ⟨_, _, hrun, copyOf_denied (.inl rfl) ?_ id⟩
        exact fun hall => hblock (granted_two.mp hall).2
  · exact copyElement_noNode _ hnode

lemma copyElement_list {elems : List Sexp} {h : Heap}
    (helems : ∀ h : Heap, ∃ ys h', copySexp g elems h = .ok (ys, h') ∧ CopiesOf g elems h ys h') :
    ∃ o h', copyElement g (.list elems) h = .ok (o, h') ∧ CopyOf g (.list elems) h o h' := by
  by_cases hnode : g.alloc h.allocs = true
  · obtain ⟨ys, h', hys, hcopies⟩ := helems h.next
    have hrun : copyElement g (.list elems) h = .ok (some (.list ys), h') := by
      simp [copyElement, hnode, hys, Except.map]
    have hsame : (∃ y, some (Sexp.list ys) = some y ∧ SameElement (.list elems) y) ↔
        SameAll elems ys := by
      constructor
      · rintro ⟨y, hy, hsame⟩
        cases hy
        exact hsame
      · intro hall
        exact ⟨.list ys, rfl, hall⟩
    refine ⟨_, _, hrun, ?_, by simp, ?_, ?_⟩
    · apply iff_of_false (by simp)
      rintro (⟨n, hblob⟩ | hdenied)
      · cases hblob
      · exact hdenied (granted_one.mpr hnode)
    · rw [hsame, hcopies.same]
      simp only [copyAllocs, granted_add, granted_one, HasData, hnode, true_and]
      rfl
    · rw [hsame]
      intro hall
      rw [hcopies.allocs hall, copyAllocs, Heap.next]
      dsimp only
      omega
  · exact copyElement_noNode _ hnode

/-- The copy of an element, and then that of the elements behind it. -/
lemma copySexp_cons {x : Sexp} {xs : List Sexp} {h : Heap}
    (hx : ∃ o h', copyElement g x h = .ok (o, h') ∧ CopyOf g x h o h')
    (hxs : ∀ h : Heap, ∃ ys h', copySexp g xs h = .ok (ys, h') ∧ CopiesOf g xs h ys h') :
    ∃ ys h', copySexp g (x :: xs) h = .ok (ys, h') ∧ CopiesOf g (x :: xs) h ys h' ∧
      (HeadFails g (x :: xs) h.allocs → ys = [] ∧ Reported h'.errno) ∧
      (¬ HeadFails g (x :: xs) h.allocs → ys ≠ []) := by
  obtain ⟨o, h₁, ho, hcopy⟩ := hx
  cases o with
  | none =>
    have hrun : copySexp g (x :: xs) h = .ok ([], h₁) := by rw [copySexp, ho]
    have hmissing : ¬ (Granted g (copyAllocs x) h.allocs ∧ HasData x) := by
      rw [← hcopy.same]
      simp
    refine ⟨[], h₁, hrun, ⟨?_, False.elim⟩, fun _ => ⟨rfl, hcopy.reported rfl⟩, ?_⟩
    · apply iff_of_false id
      rintro ⟨hall, hdata⟩
      rw [copyAllocsAll, granted_add] at hall
      exact hmissing ⟨hall.1, hdata.1⟩
    · intro hhead
      exact absurd (hcopy.fails.mp rfl) hhead
  | some y =>
    obtain ⟨ys, h₂, hys, hcopies⟩ := hxs h₁
    have hrun : copySexp g (x :: xs) h = .ok (y :: ys, h₂) := by
      rw [copySexp, ho]
      dsimp only
      rw [hys]
      rfl
    have hsame : SameElement x y ↔ Granted g (copyAllocs x) h.allocs ∧ HasData x := by
      rw [← hcopy.same]
      simp
    have hallocs : SameElement x y → h₁.allocs = h.allocs + copyAllocs x :=
      fun hy => hcopy.allocs ⟨y, rfl, hy⟩
    refine ⟨y :: ys, h₂, hrun, ⟨?_, ?_⟩, ?_, fun _ => List.cons_ne_nil _ _⟩
    · rw [SameAll, copyAllocsAll, granted_add, HasDataAll]
      constructor
      · rintro ⟨hy, hrest⟩
        have hgot := hsame.mp hy
        have hgots := hcopies.same.mp hrest
        rw [hallocs hy] at hgots
        exact ⟨⟨hgot.1, hgots.1⟩, hgot.2, hgots.2⟩
      · rintro ⟨⟨hgot, hgots⟩, hdata, hdatas⟩
        have hy := hsame.mpr ⟨hgot, hdata⟩
        rw [← hallocs hy] at hgots
        exact ⟨hy, hcopies.same.mpr ⟨hgots, hdatas⟩⟩
    · rintro ⟨hy, hrest⟩
      rw [hcopies.allocs hrest, hallocs hy, copyAllocsAll]
      omega
    · intro hhead
      have hnone := hcopy.fails.mpr hhead
      cases hnone

mutual
lemma copyElement_copies (x : Sexp) (hx : Consistent x) (h : Heap) :
    ∃ o h', copyElement g x h = .ok (o, h') ∧ CopyOf g x h o h' := by
  match x, hx with
  | .value aty val valAllocated valUsed, hx =>
    exact copyElement_text aty val valAllocated valUsed hx h
  | .blob bindata binlength, hx => exact copyElement_blob bindata binlength hx h
  | .list elems, hx => exact copyElement_list fun h => copySexp_copies elems hx h

lemma copySexp_copies (xs : List Sexp) (hxs : ConsistentAll xs) (h : Heap) :
    ∃ ys h', copySexp g xs h = .ok (ys, h') ∧ CopiesOf g xs h ys h' := by
  match xs, hxs with
  | [], _ => exact ⟨[], h, rfl, iff_of_true trivial ⟨granted_zero, trivial⟩, fun _ => rfl⟩
  | x :: xs, hxs =>
    obtain ⟨ys, h', hrun, hcopies, _⟩ := @copySexp_cons g x xs h (copyElement_copies x hxs.1 h)
      fun h => copySexp_copies xs hxs.2 h
    exact ⟨ys, h', hrun, hcopies⟩
end

variable {s : List Sexp}

/-- `copy_sexp` returns `NULL` and says so or a structural copy exactly when its first element
cannot be copied, or everything can. -/
theorem copy_all_or_nothing (hs : ConsistentAll s) (h : Heap) :
    (∃ s' h', copySexp g s h = .ok (s', h') ∧
        ((s' = [] ∧ Reported h'.errno) ∨ SameAll s s')) ↔
      HeadFails g s h.allocs ∨ (Granted g (copyAllocsAll s) h.allocs ∧ HasDataAll s) := by
  cases s with
  | nil =>
    apply iff_of_true
    · exact ⟨[], h, rfl, .inr trivial⟩
    · exact .inr ⟨granted_zero, trivial⟩
  | cons x xs =>
    obtain ⟨s', h', hrun, hcopies, hfails, hhead⟩ := @copySexp_cons g x xs h
      (copyElement_copies x hs.1 h) fun h => copySexp_copies xs hs.2 h
    rw [← hcopies.same]
    constructor
    · rintro ⟨s'', h'', hrun', hresult⟩
      rw [hrun] at hrun'
      cases hrun'
      apply hresult.imp_left
      rintro ⟨hnull, _⟩
      by_contra hgo
      exact hhead hgo hnull
    · intro hcond
      exact ⟨s', h', hrun, hcond.imp_left hfails⟩

/-- The expression `(a b)`. -/
def pairOfAtoms : List Sexp :=
  [.list [.value .basic [97, nul] 2 2, .value .basic [98, nul] 2 2]]

lemma consistent_pairOfAtoms : ConsistentAll pairOfAtoms := by
  have hatom (c : Byte) (hc : c ≠ nul) : Consistent (.value .basic [c, nul] 2 2) := by
    have htext : cstr [c, nul] = [c] := by simp [cstr, hc]
    refine .inr ⟨rfl, le_refl _, ?_, ?_⟩ <;> simp [htext]
  exact ⟨⟨hatom 97 (by decide), hatom 98 (by decide), trivial⟩, trivial⟩

/-- With memory for everything `(a b)` is copied. -/
theorem copy_all_or_nothing_pair : ∃ s' h', copySexp .plain pairOfAtoms ⟨0, .ok⟩ = .ok (s', h') ∧
    ((s' = [] ∧ Reported h'.errno) ∨ SameAll pairOfAtoms s') := by
  refine (copy_all_or_nothing consistent_pairOfAtoms _).mpr (.inr ⟨?_, ?_⟩)
  · exact granted_of_succeeds fun _ => rfl
  · exact ⟨⟨trivial, trivial, trivial⟩, trivial⟩

/-- Without memory for the node of `b`, the copy of `(a b)` is `(a)`. -/
theorem lost_sibling : ConsistentAll pairOfAtoms ∧
    ∃ s' h', copySexp ⟨defaultParams, fun _ => nul, fun n => n ≠ 3⟩ pairOfAtoms ⟨0, .ok⟩ =
        .ok (s', h') ∧ s' ≠ [] ∧ ¬ SameAll pairOfAtoms s' := by
  refine ⟨consistent_pairOfAtoms, [.list [.value .basic [97, nul] 2 2]], ⟨4, .memory⟩, ?_, ?_, ?_⟩
  · simp [pairOfAtoms, copySexp, copyElement, copyText, Heap.next, Heap.fail, Except.map]
  · exact List.cons_ne_nil _ _
  · rintro ⟨⟨_, hrest⟩, _⟩
    exact hrest

end Copies

end Sfsexp.Proofs
