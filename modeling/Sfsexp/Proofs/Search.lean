import Sfsexp.Spec.Search

/-!
# `bfs_find_sexp` and the shallowest occurrence

The search finds an occurrence if there is one. As it finishes with one list before it looks into the
next, what it finds need not be the shallowest occurrence; when it is, is a matter of the lists on
the way to it.
-/

namespace Sfsexp.Proofs

open Sfsexp Sfsexp.Spec

section Positions

variable {name : List Byte} {x : Sexp} {xs : List Sexp} {i : Nat} {p : Position}

lemma occurs_self : Occurs name x [] ↔ valIs name x = true := by
  constructor
  · rintro ⟨y, hy, hval⟩
    cases hy
    exact hval
  · intro hval
    exact ⟨x, rfl, hval⟩

lemma not_occurs_self : ¬ Occurs name (.list xs) [] := by
  rw [occurs_self]
  simp [valIs]

lemma occurs_cons : Occurs name (.list xs) (i :: p) ↔ ∃ y, xs[i]? = some y ∧ Occurs name y p := by
  unfold Occurs
  rw [elementAt]
  cases xs[i]? with
  | none => simp
  | some z => simp

lemma occurs_nil : ¬ Occurs name (.list []) p := by
  cases p with
  | nil => exact not_occurs_self
  | cons i p =>
    rw [occurs_cons]
    simp

lemma occurs_head : Occurs name (.list (x :: xs)) (0 :: p) ↔ Occurs name x p := by
  rw [occurs_cons]
  simp

lemma occurs_tail :
    Occurs name (.list (x :: xs)) ((i + 1) :: p) ↔ Occurs name (.list xs) (i :: p) := by
  rw [occurs_cons, occurs_cons]
  simp

/-- Only a list has anything below it. -/
lemma list_of_occurs (h : Occurs name x (i :: p)) : ∃ elems, x = .list elems := by
  obtain ⟨y, hy, -⟩ := h
  cases x with
  | value aty val valAllocated valUsed => cases hy
  | blob bindata binlength => cases hy
  | list elems => exact ⟨elems, rfl⟩

end Positions

section Depths

variable {name : List Byte}

mutual
/-- No occurrence is above the depth. -/
lemma depthIn_le {x : Sexp} {p : Position} (h : Occurs name x p) : depthIn name x ≤ p.length := by
  match x, p with
  | .value aty val valAllocated valUsed, [] =>
    rw [depthIn, if_pos (occurs_self.mp h)]
    · exact zero_le
    · simp
  | .value _ _ _ _, _ :: _ =>
    obtain ⟨elems, helems⟩ := list_of_occurs h
    cases helems
  | .blob bindata binlength, [] => exact absurd (occurs_self.mp h) (by simp [valIs])
  | .blob _ _, _ :: _ =>
    obtain ⟨elems, helems⟩ := list_of_occurs h
    cases helems
  | .list elems, [] => exact absurd h not_occurs_self
  | .list elems, i :: p =>
    have hall := depthInAll_le h
    rw [depthIn, List.length_cons, Nat.cast_add, Nat.cast_one]
    gcongr

lemma depthInAll_le {xs : List Sexp} {i : Nat} {p : Position}
    (h : Occurs name (.list xs) (i :: p)) : depthInAll name xs ≤ p.length := by
  match xs, i with
  | [], _ => exact absurd h occurs_nil
  | x :: xs, 0 =>
    rw [depthInAll]
    exact (min_le_left _ _).trans (depthIn_le (occurs_head.mp h))
  | x :: xs, i + 1 =>
    rw [depthInAll]
    exact (min_le_right _ _).trans (depthInAll_le (occurs_tail.mp h))
end

mutual
/-- A finite depth is the depth of an occurrence. -/
lemma occurs_of_depthIn {x : Sexp} {n : Nat} (h : depthIn name x = n) :
    ∃ p, Occurs name x p ∧ p.length = n := by
  match x with
  | .value aty val valAllocated valUsed =>
    rw [depthIn] at h
    · split_ifs at h with hval
      · exact ⟨[], occurs_self.mpr hval, by exact_mod_cast h⟩
      · exact absurd h.symm (ENat.natCast_ne_top n)
    · simp
  | .blob bindata binlength =>
    rw [depthIn] at h
    · simp [valIs] at h
    · simp
  | .list elems =>
    rw [depthIn] at h
    cases hall : depthInAll name elems with
    | top =>
      rw [hall] at h
      exact absurd h.symm (by simp)
    | coe m =>
      obtain ⟨i, p, hocc, hlen⟩ := occurs_of_depthInAll hall
      refine ⟨i :: p, hocc, ?_⟩
      rw [hall] at h
      rw [List.length_cons, hlen]
      exact_mod_cast h

lemma occurs_of_depthInAll {xs : List Sexp} {n : Nat} (h : depthInAll name xs = n) :
    ∃ i p, Occurs name (.list xs) (i :: p) ∧ p.length = n := by
  match xs with
  | [] =>
    rw [depthInAll] at h
    exact absurd h.symm (ENat.natCast_ne_top n)
  | x :: xs =>
    rw [depthInAll] at h
    rcases min_choice (depthIn name x) (depthInAll name xs) with hmin | hmin
    · rw [hmin] at h
      obtain ⟨p, hocc, hlen⟩ := occurs_of_depthIn h
      exact ⟨0, p, occurs_head.mpr hocc, hlen⟩
    · rw [hmin] at h
      obtain ⟨i, p, hocc, hlen⟩ := occurs_of_depthInAll h
      exact ⟨i + 1, p, occurs_tail.mpr hocc, hlen⟩
end

lemma depthIn_eq_top {x : Sexp} : depthIn name x = ⊤ ↔ ∀ p, ¬ Occurs name x p := by
  constructor
  · intro h p hocc
    have hle := depthIn_le hocc
    rw [h, top_le_iff] at hle
    exact absurd hle (ENat.natCast_ne_top _)
  · intro h
    cases hdepth : depthIn name x with
    | top => rfl
    | coe n =>
      obtain ⟨p, hocc, -⟩ := occurs_of_depthIn hdepth
      exact absurd hocc (h p)

end Depths

section Search

variable {name : List Byte}

mutual
/-- What the search returns is an occurrence. -/
lemma occurs_of_bfsChildren {x : Sexp} {p : Position} (h : bfsChildren name x = some p) :
    ∃ i q, p = i :: q ∧ Occurs name x p := by
  match x with
  | .value aty val valAllocated valUsed => cases h
  | .blob bindata binlength => cases h
  | .list elems =>
    rw [bfsChildren] at h
    cases hscan : elems.findIdx? (valIs name) with
    | some i =>
      rw [hscan] at h
      obtain ⟨hi, hval, -⟩ := List.findIdx?_eq_some_iff_getElem.mp hscan
      cases h
      exact ⟨i, [], rfl, occurs_cons.mpr ⟨elems[i], List.getElem?_eq_getElem hi, occurs_self.mpr hval⟩⟩
    | none =>
      rw [hscan] at h
      obtain ⟨i, j, q, hp, hocc⟩ := occurs_of_bfsLists h
      exact ⟨i, j :: q, hp, hocc⟩

lemma occurs_of_bfsLists {xs : List Sexp} {p : Position} (h : bfsLists name xs = some p) :
    ∃ i j q, p = i :: j :: q ∧ Occurs name (.list xs) p := by
  match xs with
  | [] => cases h
  | x :: xs =>
    rw [bfsLists] at h
    cases hx : bfsChildren name x with
    | some r =>
      rw [hx] at h
      obtain ⟨j, q, hr, hocc⟩ := occurs_of_bfsChildren hx
      cases h
      exact ⟨0, j, q, by rw [hr], occurs_head.mpr hocc⟩
    | none =>
      rw [hx] at h
      cases hxs : bfsLists name xs with
      | none =>
        rw [hxs] at h
        cases h
      | some r =>
        rw [hxs] at h
        obtain ⟨i, j, q, rfl, hocc⟩ := occurs_of_bfsLists hxs
        cases h
        exact ⟨i + 1, j, q, rfl, occurs_tail.mpr hocc⟩
end

/-- No element of a chain that was scanned in vain holds the text itself. -/
lemma not_occurs_direct {xs : List Sexp} (h : ∀ x ∈ xs, valIs name x = false) (i : Nat) :
    ¬ Occurs name (.list xs) [i] := by
  rw [occurs_cons]
  rintro ⟨y, hy, hocc⟩
  have hval := h y (List.mem_of_getElem? hy)
  rw [occurs_self.mp hocc] at hval
  cases hval

mutual
/-- Nothing is below an element when the search returns `NULL`. -/
lemma not_occurs_of_bfsChildren {x : Sexp} (h : bfsChildren name x = none) (i : Nat)
    (p : Position) : ¬ Occurs name x (i :: p) := by
  match x with
  | .value aty val valAllocated valUsed =>
    intro hocc
    obtain ⟨elems, helems⟩ := list_of_occurs hocc
    cases helems
  | .blob bindata binlength =>
    intro hocc
    obtain ⟨elems, helems⟩ := list_of_occurs hocc
    cases helems
  | .list elems =>
    rw [bfsChildren] at h
    cases hscan : elems.findIdx? (valIs name) with
    | some j =>
      rw [hscan] at h
      cases h
    | none =>
      rw [hscan] at h
      have hdirect := List.findIdx?_eq_none_iff.mp hscan
      cases p with
      | nil => exact not_occurs_direct hdirect i
      | cons j p => exact not_occurs_of_bfsLists h i j p

lemma not_occurs_of_bfsLists {xs : List Sexp} (h : bfsLists name xs = none) (i j : Nat)
    (p : Position) : ¬ Occurs name (.list xs) (i :: j :: p) := by
  match xs, i with
  | [], _ => exact occurs_nil
  | x :: xs, i =>
    rw [bfsLists] at h
    cases hx : bfsChildren name x with
    | some r =>
      rw [hx] at h
      cases h
    | none =>
      rw [hx] at h
      match i with
      | 0 =>
        rw [occurs_head]
        exact not_occurs_of_bfsChildren hx j p
      | i + 1 =>
        rw [occurs_tail]
        exact not_occurs_of_bfsLists (Option.map_eq_none_iff.mp h) i j p
end

end Search

section Guided

variable {name : List Byte} {x : Sexp} {xs elems : List Sexp} {i : Nat} {p : Position}

lemma shallowest_depth (h : Shallowest name elems p) : depthIn name (.list elems) = p.length := by
  apply le_antisymm (depthIn_le h.occurs)
  cases hdepth : depthIn name (.list elems) with
  | top => exact le_top
  | coe n =>
    obtain ⟨q, hocc, rfl⟩ := occurs_of_depthIn hdepth
    exact_mod_cast h.least q hocc

/-- The order of positions, which is the lexicographic one. -/
lemma cons_le_position {j : Nat} {q : Position} :
    (i :: p : Position) ≤ j :: q ↔ i < j ∨ i = j ∧ p ≤ q := by
  rw [le_iff_lt_or_eq, le_iff_lt_or_eq (a := p), List.cons_eq_cons]
  change List.Lex (· < ·) (i :: p) (j :: q) ∨ _ ↔ _ ∨ _ ∧ (List.Lex (· < ·) p q ∨ _)
  rw [List.cons_lex_cons_iff]
  tauto

/-- Inside the first list of a chain. -/
lemma shallowest_head :
    Shallowest name (.list elems :: xs) (0 :: p) ↔
      Shallowest name elems p ∧ (p.length : ℕ∞) ≤ depthInAll name xs := by
  constructor
  · intro h
    refine ⟨⟨occurs_head.mp h.occurs, ?_, ?_⟩, ?_⟩
    · intro q hq
      have hle := h.least (0 :: q) (occurs_head.mpr hq)
      simpa using hle
    · intro q hq hlen
      have hle := h.leftmost (0 :: q) (occurs_head.mpr hq) (by simp [hlen])
      simpa [cons_le_position] using hle
    · cases hdepth : depthInAll name xs with
      | top => exact le_top
      | coe n =>
        obtain ⟨i, q, hocc, rfl⟩ := occurs_of_depthInAll hdepth
        have hle := h.least ((i + 1) :: q) (occurs_tail.mpr hocc)
        simp only [List.length_cons] at hle
        exact_mod_cast Nat.le_of_succ_le_succ hle
  · rintro ⟨h, hdepth⟩
    have hright : ∀ i q, Occurs name (.list xs) (i :: q) → p.length ≤ q.length := by
      intro i q hq
      exact_mod_cast hdepth.trans (depthInAll_le hq)
    refine ⟨occurs_head.mpr h.occurs, ?_, ?_⟩
    · intro q hq
      match q with
      | [] => exact absurd hq not_occurs_self
      | 0 :: q =>
        have hle := h.least q (occurs_head.mp hq)
        simpa using hle
      | (i + 1) :: q =>
        have hle := hright i q (occurs_tail.mp hq)
        simpa using hle
    · intro q hq hlen
      match q with
      | [] => exact absurd hq not_occurs_self
      | 0 :: q =>
        have hle := h.leftmost q (occurs_head.mp hq) (by simpa using hlen)
        simpa [cons_le_position] using hle
      | (i + 1) :: q => exact cons_le_position.mpr (.inl (Nat.succ_pos i))

/-- Behind an element without occurrences. -/
lemma shallowest_tail (hx : ∀ q, ¬ Occurs name x q) :
    Shallowest name (x :: xs) ((i + 1) :: p) ↔ Shallowest name xs (i :: p) := by
  constructor
  · intro h
    refine ⟨occurs_tail.mp h.occurs, ?_, ?_⟩
    · intro q hq
      match q with
      | [] => exact absurd hq not_occurs_self
      | j :: q =>
        have hle := h.least ((j + 1) :: q) (occurs_tail.mpr hq)
        simpa using hle
    · intro q hq hlen
      match q with
      | [] => exact absurd hq not_occurs_self
      | j :: q =>
        have hle := h.leftmost ((j + 1) :: q) (occurs_tail.mpr hq) (by simpa using hlen)
        simpa [cons_le_position] using hle
  · intro h
    refine ⟨occurs_tail.mpr h.occurs, ?_, ?_⟩
    · intro q hq
      match q with
      | [] => exact absurd hq not_occurs_self
      | 0 :: q => exact absurd (occurs_head.mp hq) (hx q)
      | (j + 1) :: q =>
        have hle := h.least (j :: q) (occurs_tail.mp hq)
        simpa using hle
    · intro q hq hlen
      match q with
      | [] => exact absurd hq not_occurs_self
      | 0 :: q => exact absurd (occurs_head.mp hq) (hx q)
      | (j + 1) :: q =>
        have hle := h.leftmost (j :: q) (occurs_tail.mp hq) (by simpa using hlen)
        simpa [cons_le_position] using hle

/-- An element that holds the text itself is the shallowest occurrence when it is the first. -/
lemma shallowest_direct (h : elems.findIdx? (valIs name) = some i) :
    Shallowest name elems [i] := by
  obtain ⟨hi, hval, hfirst⟩ := List.findIdx?_eq_some_iff_getElem.mp h
  refine ⟨?_, ?_, ?_⟩
  · exact occurs_cons.mpr ⟨elems[i], List.getElem?_eq_getElem hi, occurs_self.mpr hval⟩
  · intro q hq
    match q with
    | [] => exact absurd hq not_occurs_self
    | _ :: q => simp
  · intro q hq hlen
    match q with
    | [j] =>
      obtain ⟨y, hy, hocc⟩ := occurs_cons.mp hq
      have hle : i ≤ j := by
        by_contra hlt
        have hj : j < i := by omega
        have hnot := hfirst j hj
        rw [List.getElem?_eq_getElem (by omega)] at hy
        cases hy
        exact hnot (occurs_self.mp hocc)
      rcases Nat.lt_or_eq_of_le hle with hlt | rfl
      · exact cons_le_position.mpr (.inl hlt)
      · exact le_refl _

mutual
/-- What is found below a list is its shallowest occurrence exactly when the list guides the search. -/
lemma bfsChildren_shallowest (x : Sexp) {p : Position} (h : bfsChildren name x = some p)
    {elems : List Sexp} (helems : x = .list elems) :
    Shallowest name elems p ↔ Guided name x := by
  match x with
  | .list xs =>
    cases helems
    rw [bfsChildren] at h
    rw [Guided]
    cases hscan : elems.findIdx? (valIs name) with
    | some i =>
      rw [hscan] at h
      obtain ⟨hi, hval, -⟩ := List.findIdx?_eq_some_iff_getElem.mp hscan
      cases h
      exact iff_of_true (shallowest_direct hscan) (.inl ⟨elems[i], List.getElem_mem hi, hval⟩)
    | none =>
      rw [hscan] at h
      have hdirect := List.findIdx?_eq_none_iff.mp hscan
      rw [bfsLists_shallowest elems hdirect h]
      constructor
      · exact .inr
      · rintro (⟨x, hx, hval⟩ | hguided)
        · rw [hdirect x hx] at hval
          cases hval
        · exact hguided

lemma bfsLists_shallowest (xs : List Sexp) (hdirect : ∀ x ∈ xs, valIs name x = false)
    {p : Position} (h : bfsLists name xs = some p) :
    Shallowest name xs p ↔ GuidedAll name xs := by
  match xs with
  | [] => cases h
  | x :: xs =>
    obtain ⟨hx, hxs⟩ := List.forall_mem_cons.mp hdirect
    rw [bfsLists] at h
    rw [GuidedAll]
    cases hfound : bfsChildren name x with
    | some r =>
      rw [hfound] at h
      cases h
      obtain ⟨j, q, rfl, hocc⟩ := occurs_of_bfsChildren hfound
      obtain ⟨elems, helems⟩ := list_of_occurs hocc
      have hinside := bfsChildren_shallowest x hfound helems
      subst helems
      have hdepth : depthIn name (.list elems) ≠ ⊤ := fun htop => depthIn_eq_top.mp htop _ hocc
      rw [shallowest_head]
      constructor
      · rintro ⟨hshallow, hle⟩
        rw [← shallowest_depth hshallow] at hle
        exact .inr ⟨hdepth, hinside.mp hshallow, hle⟩
      · rintro (⟨htop, -⟩ | ⟨-, hguided, hle⟩)
        · exact absurd htop hdepth
        · have hshallow := hinside.mpr hguided
          rw [shallowest_depth hshallow] at hle
          exact ⟨hshallow, hle⟩
    | none =>
      rw [hfound] at h
      have hnone : ∀ q, ¬ Occurs name x q := by
        intro q
        cases q with
        | nil => rw [occurs_self, hx]; exact Bool.false_ne_true
        | cons j q => exact not_occurs_of_bfsChildren hfound j q
      have htop := depthIn_eq_top.mpr hnone
      cases hrest : bfsLists name xs with
      | none =>
        rw [hrest] at h
        cases h
      | some r =>
        rw [hrest] at h
        obtain ⟨j, k, q, rfl, hocc⟩ := occurs_of_bfsLists hrest
        cases h
        have hinside := bfsLists_shallowest xs hxs hrest
        rw [bump, shallowest_tail hnone, hinside]
        constructor
        · intro hguided
          exact .inl ⟨htop, hguided⟩
        · rintro (⟨-, hguided⟩ | ⟨hne, -⟩)
          · exact hguided
          · exact absurd htop hne
end

/-- A chain without an occurrence guides the search, as there is nothing to find. -/
lemma guided_of_top {xs : List Sexp} (h : ∀ x ∈ xs, depthIn name x = ⊤) : GuidedAll name xs := by
  induction xs with
  | nil => trivial
  | cons x xs ih =>
    obtain ⟨hx, hxs⟩ := List.forall_mem_cons.mp h
    rw [GuidedAll]
    exact .inl ⟨hx, ih hxs⟩

end Guided

/-- What `bfs_find_sexp` promises: it finds an occurrence if there is one, the shallowest and among
those the leftmost. -/
structure FindsShallowest (name : List Byte) (start : List Sexp) : Prop where
  found : bfsFindSexp name start ≠ none ↔ ∃ p, Occurs name (.list start) p
  shallowest : ∀ p, bfsFindSexp name start = some p → Shallowest name start p

/-- An occurrence is found whenever there is one. -/
lemma bfs_found (name : List Byte) (start : List Sexp) :
    bfsFindSexp name start ≠ none ↔ ∃ p, Occurs name (.list start) p := by
  rw [Option.ne_none_iff_exists']
  constructor
  · rintro ⟨p, hp⟩
    obtain ⟨i, q, -, hocc⟩ := occurs_of_bfsChildren hp
    exact ⟨p, hocc⟩
  · rintro ⟨p, hocc⟩
    cases hfound : bfsFindSexp name start with
    | some q => exact ⟨q, rfl⟩
    | none =>
      cases p with
      | nil => exact absurd hocc not_occurs_self
      | cons i p => exact absurd hocc (not_occurs_of_bfsChildren hfound i p)

/-- The search keeps its promise exactly when each list it goes into holds the text as near to the
top as any list behind it. -/
theorem bfs_find_shallowest (name : List Byte) (start : List Sexp) :
    FindsShallowest name start ↔ Guided name (.list start) := by
  cases hfound : bfsFindSexp name start with
  | some p =>
    rw [← bfsChildren_shallowest (.list start) hfound rfl]
    constructor
    · intro h
      exact h.shallowest p hfound
    · intro h
      refine ⟨bfs_found name start, ?_⟩
      intro q hq
      rw [hfound] at hq
      cases hq
      exact h
  | none =>
    have hnone : ∀ p, ¬ Occurs name (.list start) p := by
      intro p hocc
      exact (bfs_found name start).mpr ⟨p, hocc⟩ hfound
    have htop : ∀ x ∈ start, depthIn name x = ⊤ := by
      intro x hx
      obtain ⟨i, hi, rfl⟩ := List.getElem_of_mem hx
      apply depthIn_eq_top.mpr
      intro q hq
      exact hnone (i :: q) (occurs_cons.mpr ⟨_, List.getElem?_eq_getElem hi, hq⟩)
    apply iff_of_true
    · refine ⟨bfs_found name start, ?_⟩
      intro p hp
      rw [hfound] at hp
      cases hp
    · rw [Guided]
      exact .inr (guided_of_top htop)

/-- The expression `((x)) (x)`, where the second list holds `x` nearer to the top. -/
def deepThenShallow : List Sexp :=
  let x : Sexp := .value .basic [120, nul] 2 2
  [.list [.list [x]], .list [x]]

/-- The search for `x` goes to the bottom of the first list. -/
theorem deep_branch_first : ¬ FindsShallowest [120] deepThenShallow := by
  intro h
  have hshallow := h.shallowest [0, 0, 0] (by decide)
  have hle := hshallow.least [1, 0] ⟨.value .basic [120, nul] 2 2, rfl, by decide⟩
  exact absurd hle (by decide)

end Sfsexp.Proofs
