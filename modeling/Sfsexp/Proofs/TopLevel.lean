import Sfsexp.Model.Iterative
import Sfsexp.Proofs.InlineRoundTrip

/-!
# Blobs at the top level

Outside of a list a blob is only kept in `sx` until the loop is left, and what follows in the same
buffer takes its place: of a sequence of expressions `iparse_sexp` hands out those that are lists, and
the last one.
-/

namespace Sfsexp.Proofs

open Sfsexp

/-- A list, or a blob with at least one byte, whose text is read back in inline binary mode. -/
structure Printed (x : Sexp) : Prop where
  whole : Whole x
  readable : InlineReadable x.tree
  root : (∃ elems, x = .list elems) ∨ ∃ data, data ≠ [] ∧ x = .blob (some data) data.length

/-- The texts of expressions, each with a newline behind it. -/
def lineTexts (xs : List Sexp) : List Byte := xs.flatMap fun x => x.tree.render ++ [newline]

/-- What is read of the expressions `xs` when the blob `pending` was read before: a blob is lost as soon
as anything follows it. -/
def kept : Option Sexp → List Sexp → List Sexp
  | pending, [] => pending.toList
  | _, .list elems :: xs => .list elems :: kept none xs
  | _, x :: xs => kept (some x) xs

/-- The expression that the next call returns, and those that are left then. -/
def nextOf : Option Sexp → List Sexp → Option (Sexp × List Sexp)
  | pending, [] => pending.map (·, [])
  | _, .list elems :: xs => some (.list elems, xs)
  | _, x :: xs => nextOf (some x) xs

lemma kept_of_nextOf_none {p : Option Sexp} {xs : List Sexp} (h : nextOf p xs = none) :
    kept p xs = [] := by
  induction xs generalizing p with
  | nil =>
    rw [nextOf, Option.map_eq_none_iff] at h
    rw [kept, h]
    rfl
  | cons x xs ih =>
    cases x with
    | list elems => cases h
    | value aty val valAllocated valUsed => exact ih h
    | blob bindata binlength => exact ih h

lemma kept_of_nextOf {p : Option Sexp} {xs rest : List Sexp} {x : Sexp}
    (h : nextOf p xs = some (x, rest)) :
    kept p xs = x :: kept none rest ∧ rest.length ≤ xs.length ∧ (p = none → rest.length < xs.length) ∧
      ∀ y ∈ rest, y ∈ xs := by
  induction xs generalizing p with
  | nil =>
    rw [nextOf, Option.map_eq_some_iff] at h
    obtain ⟨y, rfl, hy⟩ := h
    obtain ⟨rfl, rfl⟩ := Prod.mk.inj hy
    exact ⟨rfl, Nat.le_refl _, by simp, by simp⟩
  | cons z xs ih =>
    have hblob : nextOf (some z) xs = some (x, rest) → kept (some z) xs = x :: kept none rest ∧
        rest.length ≤ (z :: xs).length ∧ (p = none → rest.length < (z :: xs).length) ∧
        ∀ y ∈ rest, y ∈ z :: xs := by
      intro hz
      obtain ⟨hkept, hle, -, hmem⟩ := ih hz
      rw [List.length_cons]
      exact ⟨hkept, by omega, fun _ => by omega, fun y hy => List.mem_cons_of_mem _ (hmem y hy)⟩
    cases z with
    | list elems =>
      obtain ⟨rfl, rfl⟩ := Prod.mk.inj (Option.some.inj h)
      exact ⟨rfl, Nat.le_succ _, fun _ => Nat.lt_succ_self _, fun y hy => List.mem_cons_of_mem _ hy⟩
    | value aty val valAllocated valUsed => exact hblob h
    | blob bindata binlength => exact hblob h

/-- Only the last of the expressions may be a blob. -/
def BlobLast (xs : List Sexp) : Prop := ∀ x ∈ xs.dropLast, ∃ elems, x = .list elems

lemma kept_cons (p : Option Sexp) (x : Sexp) (xs : List Sexp) :
    kept p (x :: xs) = kept none (x :: xs) := by
  cases x <;> rfl

lemma kept_list (elems xs : List Sexp) : kept none (.list elems :: xs) = .list elems :: kept none xs :=
  rfl

/-- A blob in front of something else is lost. -/
lemma kept_lost {x : Sexp} (hx : ∀ elems, x ≠ .list elems) (y : Sexp) (xs : List Sexp) :
    kept none (x :: y :: xs) = kept none (y :: xs) := by
  rw [← kept_cons (some x) y xs]
  cases x with
  | list elems => exact absurd rfl (hx elems)
  | value aty val valAllocated valUsed => rfl
  | blob bindata binlength => rfl

lemma kept_last (x : Sexp) : kept none [x] = [x] := by
  cases x <;> rfl

lemma length_kept (xs : List Sexp) : (kept none xs).length ≤ xs.length := by
  induction xs with
  | nil => exact Nat.le_refl _
  | cons x xs ih =>
    cases xs with
    | nil => rw [kept_last]
    | cons y xs =>
      by_cases hx : ∃ elems, x = .list elems
      · obtain ⟨elems, rfl⟩ := hx
        rw [kept_list]
        exact Nat.succ_le_succ ih
      · rw [kept_lost (fun elems h => hx ⟨elems, h⟩)]
        exact Nat.le_succ_of_le ih

lemma kept_of_blobLast {xs : List Sexp} (h : BlobLast xs) : kept none xs = xs := by
  induction xs with
  | nil => rfl
  | cons x xs ih =>
    cases xs with
    | nil => rw [kept_last]
    | cons y xs =>
      rw [BlobLast, List.dropLast_cons_of_ne_nil (List.cons_ne_nil y xs), List.forall_mem_cons] at h
      obtain ⟨⟨elems, rfl⟩, hrest⟩ := h
      rw [kept_list, ih hrest]

/-- Nothing is lost only when nothing but the last expression is a blob. -/
lemma blobLast_of_length {xs : List Sexp} (h : (kept none xs).length = xs.length) : BlobLast xs := by
  induction xs with
  | nil =>
    intro x hx
    cases hx
  | cons x xs ih =>
    cases xs with
    | nil =>
      intro x hx
      cases hx
    | cons y xs =>
      rw [BlobLast, List.dropLast_cons_of_ne_nil (List.cons_ne_nil y xs), List.forall_mem_cons]
      by_cases hx : ∃ elems, x = .list elems
      · refine ⟨hx, ?_⟩
        obtain ⟨elems, rfl⟩ := hx
        rw [kept_list] at h
        exact ih (Nat.succ.inj h)
      · rw [kept_lost (fun elems h => hx ⟨elems, h⟩)] at h
        have hle := length_kept (y :: xs)
        rw [List.length_cons] at h
        omega

section Calls

variable {env : Env} {l : Locals} {u w : List Byte} {xs : List Sexp}

/-- The blob that is kept in `sx`. -/
def Pending (p : Option Sexp) (l : Locals) : Prop :=
  match p with
  | none => l.elts = 0
  | some x => 0 < l.elts ∧ ∃ y, l.sx = [y] ∧ y.tree = x.tree ∧ Whole y

/-- The text of `xs` is ahead, with or without the newline that belongs to the expression before. -/
def Lines (u : List Byte) (xs : List Sexp) : Prop := u = lineTexts xs ∨ u = newline :: lineTexts xs

/-- The call returns the expression `x`, and the text of `rest` is ahead. -/
def Returns (env : Env) (x : Sexp) (rest : List Sexp) (l : Locals) : Prop :=
  ∃ R y u, Loop.Halts (cparseHead env) l (.ret R) ∧ Delivered env u y R ∧ Lines u rest ∧
    y.tree = x.tree ∧ Whole y

/-- What a call does when `q` is the next expression. -/
def CallEnds (env : Env) (q : Option (Sexp × List Sexp)) (l : Locals) : Prop :=
  match q with
  | none => ∃ R, Loop.Halts (cparseHead env) l (.ret R) ∧ R.cc.lastSexp = []
  | some (x, rest) => Returns env x rest l

lemma CallEnds.of_reaches {q : Option (Sexp × List Sexp)} {m : Locals} (h : CallEnds env q m)
    (hreach : Loop.Reaches (cparseHead env) l m) : CallEnds env q l := by
  cases q with
  | none =>
    obtain ⟨R, hrun, hsexp⟩ := h
    exact ⟨R, Loop.halts_of_reaches hreach hrun, hsexp⟩
  | some q =>
    obtain ⟨R, y, u, hrun, hrest⟩ := h
    exact ⟨R, y, u, Loop.halts_of_reaches hreach hrun, hrest⟩

/-- A space or a newline between expressions. -/
lemma skip_white {p : Option Sexp} {c : Byte} (hc : c = space ∨ c = newline)
    (hg : Gap .s1 [] l.toRegs) (hp : Pending p l) (hrest : Rest env l.t (c :: w)) :
    Gets env w (fun l' => Gap .s1 [] l'.toRegs ∧ Pending p l') l := by
  have hs := hg.state
  have hround : cparseHead env l = .ok { l with t := l.t + 1, state := .s1, vcur := l.vcur } := by
    rcases hc with rfl | rfl
    · rw [gap_head hg (by decide) hrest, ← hs]
      rfl
    · rw [gap_head hg (by decide) hrest, ← hs]
      rfl
  exact .step hround (.here hrest.tail ⟨hg.to, hp⟩)

/-- The end of the string: the blob that is kept is returned. -/
lemma call_end {p : Option Sexp} (hg : Gap .s1 [] l.toRegs) (hp : Pending p l)
    (hrest : Rest env l.t []) : CallEnds env (nextOf p []) l := by
  have hs := hg.state
  have hhead := head_of_rest_nil hrest (by simp [hs])
  cases p with
  | none =>
    have hopen : ¬ (l.depth = 0 ∧ 0 < l.elts) := by
      rintro ⟨-, helts⟩
      rw [show l.elts = 0 from hp] at helts
      exact Nat.lt_irrefl _ helts
    obtain ⟨R, hfinish, -, hsexp, -⟩ := finish_open hrest hopen
    exact ⟨R, Loop.halts_of_exit (by rw [hhead, hfinish]), hsexp⟩
  | some x =>
    obtain ⟨helts, y, hsx, htree, hwhole⟩ := hp
    have hlevels : l.stack.levels = [] := hg.stack.levels
    have hheight : l.stack.height = 0 := by
      rw [hg.stack.height, hlevels]
      rfl
    have hexit : cparseHead env l = .error ({ l with
        stack := ⟨[], l.stack.spare, 0⟩, esc := false, state := .s1 }.save .ok l.sx) := by
      rw [hhead, finish, if_pos ⟨hg.depth, helts⟩, returnTree, hlevels, hheight]
      rfl
    refine ⟨_, y, [], Loop.halts_of_exit hexit, ⟨hsx, rfl, rfl, ?_, hrest⟩, .inl rfl, htree, hwhole⟩
    exact ⟨⟨hg.mode, ⟨hg.room.cells, hg.room.free⟩, rfl, ⟨rfl, rfl⟩, hg.depth⟩, rfl, hg.used,
      hg.squoted, hg.qdepth⟩

/-- A call hands out the next list, or the last blob. -/
lemma call_lines (h : env.Succeeds) {p : Option Sexp} (hxs : ∀ x ∈ xs, Printed x)
    (hg : Gap .s1 [] l.toRegs) (hp : Pending p l) (hrest : Rest env l.t (lineTexts xs)) :
    CallEnds env (nextOf p xs) l := by
  induction xs generalizing l p with
  | nil => exact call_end hg hp hrest
  | cons x xs ih =>
    obtain ⟨hx, htail⟩ := List.forall_mem_cons.mp hxs
    have hbytes : lineTexts (x :: xs) = x.tree.render ++ newline :: lineTexts xs := by simp [lineTexts]
    rw [hbytes] at hrest
    rcases hx.root with ⟨elems, rfl⟩ | ⟨data, -, rfl⟩
    · obtain ⟨R, y, hrun, hdelivered, htree, hwhole⟩ := root_run h hx.readable hg hrest
      exact ⟨R, y, _, hrun, hdelivered, .inr rfl, htree, hwhole⟩
    · have hblob : Gets env (lineTexts xs)
          (fun l' => Gap .s1 [] l'.toRegs ∧ Pending (some (.blob (some data) data.length)) l') l := by
        refine (blob_run h hx.readable hg hrest).trans ?_
        rintro m hahead ⟨y, htree, hwhole, hm, hsx, helts⟩
        have hpending : Pending (some (.blob (some data) data.length)) m :=
          ⟨helts, y, hsx, htree, hwhole⟩
        refine (skip_white (.inl rfl) hm hpending hahead).trans ?_
        rintro m hahead ⟨hm, hpending⟩
        exact skip_white (.inr rfl) hm hpending hahead
      obtain ⟨m, hreach, hahead, hm, hpending⟩ := hblob
      exact (ih htail hm hpending hahead).of_reaches hreach

lemma call_next (h : env.Succeeds) (hxs : ∀ x ∈ xs, Printed x) (hg : Gap .s1 [] l.toRegs)
    (hp : Pending none l) (hu : Lines u xs) (hrest : Rest env l.t u) :
    CallEnds env (nextOf none xs) l := by
  rcases hu with rfl | rfl
  · exact call_lines h hxs hg hp hrest
  · obtain ⟨m, hreach, hahead, hm, hpending⟩ := skip_white (.inr rfl) hg hp hrest
    exact (call_lines h hxs hm hpending hahead).of_reaches hreach

end Calls

/-- The chain `sx` is the element that `x` was read as. -/
def ReadAs (sx : List Sexp) (x : Sexp) : Prop := ∃ y, sx = [y] ∧ y.tree = x.tree ∧ Whole y

/-- The client is handed what is kept of the expressions ahead. -/
lemma iparse_kept {g : Setup} (hg : g.Succeeds) {buf : List Byte} {len n : Nat} {cc : Pcont}
    {xs : List Sexp} {u : List Byte} (e : ErrCode) (hxs : ∀ x ∈ xs, Printed x)
    (hgap : Gap .s1 [] cc.toRegs) (hu : Lines u xs) (hn : xs.length < n)
    (hrest : Rest { toSetup := g, buf := buf, len := len } (cc.lastPos.getD 0) u) :
    ∃ rs, iparseAll g buf len n (some cc) e = some rs ∧ List.Forall₂ ReadAs rs (kept none xs) := by
  induction n generalizing cc xs u e with
  | zero => omega
  | succ n ih =>
    have hcall := call_next (l := cc.enter 0) hg hxs hgap rfl hu hrest
    cases hnext : nextOf none xs with
    | none =>
      rw [hnext] at hcall
      obtain ⟨R, hrun, hsexp⟩ := hcall
      have hparse := call_of_halts (k := ⟨g, buf, len, e⟩) hgap hrun
      refine ⟨[], ?_, ?_⟩
      · rw [iparseAll, iparseSexp]
        dsimp only at hparse ⊢
        rw [hparse]
        exact if_pos hsexp
      · rw [kept_of_nextOf_none hnext]
        exact .nil
    | some q =>
      obtain ⟨x, rest⟩ := q
      rw [hnext] at hcall
      obtain ⟨R, y, v, hrun, hdelivered, hv, htree, hwhole⟩ := hcall
      have hparse := call_of_halts (k := ⟨g, buf, len, e⟩) hgap hrun
      obtain ⟨hkept, -, hlt, hmem⟩ := kept_of_nextOf hnext
      have hshort := hlt rfl
      have hgap' : Gap .s1 [] ({ R.cc with lastSexp := [] } : Pcont).toRegs := hdelivered.gap
      have hahead : Rest { toSetup := g, buf := buf, len := len }
          (({ R.cc with lastSexp := [] } : Pcont).lastPos.getD 0) v := hdelivered.ahead
      obtain ⟨rs, hall, hrs⟩ := ih R.errno (fun y hy => hxs y (hmem y hy)) hgap' hv
        (by omega) hahead
      refine ⟨[y] :: rs, ?_, ?_⟩
      · rw [iparseAll, iparseSexp]
        dsimp only at hparse ⊢
        rw [hparse]
        dsimp only
        rw [hdelivered.tree, if_neg (List.cons_ne_nil y []), hall]
        rfl
      · rw [hkept]
        exact .cons ⟨y, rfl, htree, hwhole⟩ hrs

/-- Every expression has a text, and only one. -/
lemma prints_render {g : StringSetup} (hg : g.Succeeds) {x : Sexp} (hx : Printed x) (ss : Nat)
    (e : ErrCode) : Prints g ss e x x.tree.render := by
  have hroot : ∀ n, x ≠ .blob none n := by
    rintro n rfl
    rcases hx.root with ⟨elems, h⟩ | ⟨data, -, h⟩ <;> cases h
  obtain ⟨n, p, s, hrun, hstr, -, hs⟩ := printSexpCstr_whole hg hx.whole hroot [] ss e
  exact ⟨n, p, s, hrun, hstr, hs.taken.symm⟩

lemma prints_unique {g : StringSetup} {ss : Nat} {e : ErrCode} {x : Sexp} {t t' : List Byte}
    (h : Prints g ss e x t) (h' : Prints g ss e x t') : t = t' := by
  obtain ⟨n, p, s, hrun, hstr, rfl⟩ := h
  obtain ⟨n', p', s', hrun', hstr', rfl⟩ := h'
  have hsame := (printSexpCstr_mono (Nat.le_max_left n n') hrun).symm.trans
    (printSexpCstr_mono (Nat.le_max_right n n') hrun')
  cases hsame
  cases hstr.symm.trans hstr'
  rfl

lemma lineTexts_of_texts {g : StringSetup} (hg : g.Succeeds) {ss : Nat} {e : ErrCode} {xs : List Sexp}
    {ts : List (List Byte)} (hxs : ∀ x ∈ xs, Printed x) (hts : List.Forall₂ (Prints g ss e) xs ts) :
    ts.flatMap (· ++ [newline]) = lineTexts xs := by
  induction hts with
  | nil => rfl
  | @cons x t xs ts ht _ ih =>
    obtain ⟨hx, hxs⟩ := List.forall_mem_cons.mp hxs
    rw [List.flatMap_cons, ih hxs, prints_unique ht (prints_render hg hx ss e)]
    rfl

/-- The expressions of a string come out one by one, none of them lost, exactly when only the last one
is a blob. -/
theorem iparse_all_expressions {g : StringSetup} {g₀ g₁ : Setup} (hg : g.Succeeds) (hg₁ : g₁.Succeeds)
    {xs : List Sexp} (hxs : ∀ x ∈ xs, Printed x) {ts : List (List Byte)} {ss : Nat} {e e' : ErrCode}
    (hts : List.Forall₂ (Prints g ss e) xs ts) :
    ∃ rs, iparseAll g₁ (ts.flatMap (· ++ [newline]) ++ [nul])
        (ts.flatMap (· ++ [newline])).length (xs.length + 1) (some (Pcont.inline g₀)) e' = some rs ∧
      (List.Forall₂ ReadAs rs xs ↔ BlobLast xs) := by
  rw [lineTexts_of_texts hg hxs hts]
  have hrest : Rest { toSetup := g₁, buf := lineTexts xs ++ [nul], len := (lineTexts xs).length } 0
      (lineTexts xs) := ⟨⟨[], rfl⟩, (Nat.zero_add _).symm⟩
  obtain ⟨rs, hall, hrs⟩ := iparse_kept hg₁ e' hxs (gap_inline g₀) (.inl rfl)
    (Nat.lt_succ_self _) hrest
  refine ⟨rs, hall, ?_, ?_⟩
  · intro hread
    exact blobLast_of_length (hrs.length_eq.symm.trans hread.length_eq)
  · intro hlast
    rwa [kept_of_blobLast hlast] at hrs

/-- A blob of the byte A, and a list without elements. -/
def blobThenList : List Sexp := [.blob (some [65]) 1, .list []]

/-- Their texts. -/
def blobThenListTexts : List (List Byte) :=
  [[hash, letterB, hash, 49, hash, 65, space], [lparen, rparen]]

lemma printed_blobThenList : ∀ x ∈ blobThenList, Printed x := by
  refine List.forall_mem_cons.mpr ⟨⟨rfl, ?_, .inr ⟨[65], by decide, rfl⟩⟩,
    List.forall_mem_singleton.mpr ⟨trivial, trivial, .inl ⟨[], rfl⟩⟩⟩
  exact readable_blob (by simp)

lemma prints_blobThenList :
    List.Forall₂ (Prints .plain 8 .ok) blobThenList blobThenListTexts := by
  have hg : StringSetup.plain.Succeeds := fun _ => rfl
  refine .cons ?_ (.cons ?_ .nil)
  · exact prints_render hg (printed_blobThenList _ List.mem_cons_self) 8 .ok
  · exact prints_render hg (printed_blobThenList _ (by simp [blobThenList])) 8 .ok

/-- Of a blob and a list behind it only the list comes out. -/
theorem blob_before_list_lost :
    List.Forall₂ (Prints .plain 8 .ok) blobThenList blobThenListTexts ∧
      ∃ rs, iparseAll .plain (blobThenListTexts.flatMap (· ++ [newline]) ++ [nul])
        (blobThenListTexts.flatMap (· ++ [newline])).length 3 (some (Pcont.inline .plain)) .ok =
          some rs ∧ ¬ List.Forall₂ ReadAs rs blobThenList := by
  refine ⟨prints_blobThenList, ?_⟩
  have hg : StringSetup.plain.Succeeds := fun _ => rfl
  have hrest : Rest { toSetup := .plain, buf := lineTexts blobThenList ++ [nul]
                      len := (lineTexts blobThenList).length } 0 (lineTexts blobThenList) :=
    ⟨⟨[], rfl⟩, (Nat.zero_add _).symm⟩
  obtain ⟨rs, hall, hrs⟩ := iparse_kept (n := 3) (fun _ => rfl) .ok
    printed_blobThenList (gap_inline .plain) (.inl rfl) (by decide) hrest
  rw [← lineTexts_of_texts hg printed_blobThenList prints_blobThenList] at hall
  refine ⟨rs, hall, fun hread => ?_⟩
  have hlength := hrs.length_eq.symm.trans hread.length_eq
  exact absurd hlength (by decide)

/-- A list, a blob with the byte NUL and the end of the string: both come out. -/
theorem iparse_all_expressions_pair :
    ∃ rs, iparseAll .plain
        ([[lparen, rparen], [hash, letterB, hash, 49, hash, nul, space]].flatMap (· ++ [newline]) ++
          [nul])
        ([[lparen, rparen], [hash, letterB, hash, 49, hash, nul, space]].flatMap
          (· ++ [newline])).length 3
        (some (Pcont.inline .plain)) .ok = some rs ∧
      (List.Forall₂ ReadAs rs [.list [], .blob (some [nul]) 1] ↔
        BlobLast [.list [], .blob (some [nul]) 1]) := by
  have hg : StringSetup.plain.Succeeds := fun _ => rfl
  have hlist : Printed (.list []) := ⟨trivial, trivial, .inl ⟨[], rfl⟩⟩
  have hblob : Printed (.blob (some [nul]) 1) :=
    ⟨rfl, readable_blob (by simp), .inr ⟨[nul], by decide, rfl⟩⟩
  have hts : List.Forall₂ (Prints .plain 8 .ok) [.list [], .blob (some [nul]) 1]
      [[lparen, rparen], [hash, letterB, hash, 49, hash, nul, space]] :=
    .cons (prints_render hg hlist 8 .ok) (.cons (prints_render hg hblob 8 .ok) .nil)
  exact iparse_all_expressions (g := .plain) (fun _ => rfl) (fun _ => rfl)
    (List.forall_mem_cons.mpr ⟨hlist, List.forall_mem_singleton.mpr hblob⟩) hts

end Sfsexp.Proofs
