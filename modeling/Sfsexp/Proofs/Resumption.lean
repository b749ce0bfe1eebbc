import Sfsexp.Proofs.Displaced
import Sfsexp.Proofs.LimitedCalls
import Sfsexp.Proofs.Locality
import Sfsexp.Spec.Resumption

/-!
# Chunks and the whole input

A client that cuts its input into chunks gets what it would get for the whole of it.
-/

namespace Sfsexp.Proofs

open Sfsexp Spec

/-- What a call on a chunk finds around it. -/
abbrev chunkEnv (g : Setup) (u : List Byte) : Env := ⟨g, u ++ [nul], u.length⟩

section Chunk

variable {g : Setup} {u v : List Byte} {l l' : Locals} {R : Return}

lemma nested_of_reaches {env : Env} (h : Loop.ReachesWhile (cparseHead env) (Nested env) l l')
    (hlast : StaysNested env l') : StaysNested env l := by
  induction h using Relation.ReflTransGen.head_induction_on with
  | refl => exact hlast
  | @head l₁ l₂ hstep _ ih =>
    intro l₃ hreach
    rcases Relation.ReflTransGen.cases_head hreach with rfl | ⟨l₄, hnext, hrest⟩
    · exact hstep.1
    · have hnext : cparseHead env l₁ = .ok l₄ := hnext
      obtain rfl : l₂ = l₄ := Except.ok.inj (hstep.2.symm.trans hnext)
      exact ih l₃ hrest

/-- The byte behind an escape pair was the NUL behind the chunk. -/
def RanOver (u : List Byte) (l : Locals) : Prop := l.state = .s5 ∧ l.t = u.length + 1

lemma head_ranOver (hl : RanOver u l) : cparseHead (chunkEnv g u) l = .error (.fault .input) := by
  obtain ⟨hs, ht⟩ := hl
  have hnone : (chunkEnv g u).buf[l.t]? = none := by
    rw [ht]
    exact List.getElem?_eq_none (by simp)
  rw [cparseHead, if_neg (by simp [hs]), Env.read, hnone]
  rfl

lemma post_store {env : Env} {c : Byte} (h : env.Succeeds) :
    Post (fun l' => l'.t = l.t ∧ l'.state = l.state) (fun _ => False) (fun _ => True)
      (store env c l) := by
  rw [store, writeCur]
  split_ifs
  · rw [ok_bind, grow, if_pos (h _)]
    split_ifs
    · exact ⟨rfl, rfl⟩
    · exact ⟨rfl, rfl⟩
  · exact trivial

/-- The next byte is the last one of the chunk, and it ends an escape pair inside double quotes. -/
def PairLast (u : List Byte) (l : Locals) : Prop :=
  l.state = .s5 ∧ l.t + 1 = u.length ∧ ∃ c, u[l.t]? = some c ∧ (l.esc && isEscapable c) = true

lemma getElem?_longer {i : Nat} (hlt : i < u.length) :
    (chunkEnv g (u ++ v)).buf[i]? = (chunkEnv g u).buf[i]? := by
  rw [List.getElem?_append_left (by simp; omega), List.getElem?_append_left hlt,
    List.getElem?_append_left hlt]

lemma head_pairLast (h : g.Succeeds) (hp : PairLast u l) :
    Post (RanOver u) (fun _ => False) (fun _ => True) (cparseHead (chunkEnv g u) l) := by
  obtain ⟨hs, hlast, c, hc, hpair⟩ := hp
  have hread : (chunkEnv g u).buf[l.t]? = some c := by
    rw [List.getElem?_append_left (by omega), hc]
  have hnul : c ≠ nul := by
    rintro rfl
    rw [Bool.and_eq_true] at hpair
    exact absurd hpair.2 (by decide)
  have hend : (chunkEnv g u).buf[l.t + 1]? = some nul := by
    rw [hlast]
    simp
  rw [cparseHead, if_neg (by simp [hs]), Env.read, hread, ok_bind, if_neg (by simp [hnul]; omega),
    switch, hs]
  dsimp only
  rw [state5, if_pos hpair, overwrite]
  cases l.vcur with
  | zero => exact trivial
  | succ w =>
    dsimp only
    split_ifs
    · rw [ok_bind, Env.read]
      dsimp only
      rw [hend, ok_bind, state5Rest, if_neg (by decide)]
      refine Post.bind (post_store h) ?_
      rintro l₁ ⟨ht, hs₁⟩
      have ht₁ : l₁.t = l.t + 1 := ht
      exact ⟨hs₁.trans hs, by dsimp only; omega⟩
    · exact trivial

/-- Inside a chunk a round does the same whatever comes behind it. -/
lemma head_longer (hlt : l.t < u.length) (hp : ¬ PairLast u l)
    (hbyte : l.state ≠ .s15 → u[l.t]? ≠ some nul) :
    cparseHead (chunkEnv g (u ++ v)) l = cparseHead (chunkEnv g u) l := by
  have hnext : (chunkEnv g (u ++ v)).buf[l.t]? = (chunkEnv g u).buf[l.t]? := getElem?_longer hlt
  have hend : ¬ l.t = (chunkEnv g u).len := Nat.ne_of_lt hlt
  have hend' : ¬ l.t = (chunkEnv g (u ++ v)).len := by
    intro heq
    have hlen : l.t = (u ++ v).length := heq
    rw [List.length_append] at hlen
    omega
  rw [cparseHead, cparseHead, Env.read, Env.read, hnext]
  by_cases h15 : l.state = .s15
  · rw [if_pos h15, if_pos h15, if_neg hend, if_neg hend']
    exact @state15_congr (chunkEnv g u) (u ++ v ++ [nul]) l hnext
  · rw [if_neg h15, if_neg h15]
    rcases hc : (chunkEnv g u).buf[l.t]? with _ | c
    · rfl
    · have hget : u[l.t]? = some c := by rwa [List.getElem?_append_left hlt] at hc
      have hnul : c ≠ nul := fun heq => hbyte h15 (by rw [hget, heq])
      rw [ok_bind, ok_bind, if_neg (not_or.mpr ⟨hnul, hend'⟩), if_neg (not_or.mpr ⟨hnul, hend⟩)]
      apply @switch_congr (chunkEnv g u) (u ++ v ++ [nul]) l c h15
      intro hs hpair
      have hfar : l.t + 1 ≠ u.length := fun heq => hp ⟨hs, heq, c, hget, hpair⟩
      exact getElem?_longer (by omega)

/-- What a call returns that has come to the end without a tree. -/
def unfinished (l : Locals) : Return :=
  { cc := { toRegs := l.toRegs, lastSexp := [], lastPos := none, error := .incomplete }
    errno := .incomplete, events := l.events, cursor := l.t }

lemma finish_unfinished (hl : Rooted l)
    (hc : u[l.t]? = some nul ∨ l.t = u.length) : finish (chunkEnv g u) l = .ret (unfinished l) := by
  rw [finish, if_neg fun hboth => hl.depth hboth.1 hboth.2]
  have hnul : (chunkEnv g u).buf[l.t]? = some nul := by
    rcases hc with hc | hc
    · rw [List.getElem?_append_left (List.getElem?_eq_some_iff.mp hc).1, hc]
    · rw [hc]
      simp
  rw [hnul]
  simp [unfinished]

lemma head_end (hl : Rooted l) (hend : l.t = u.length) :
    cparseHead (chunkEnv g u) l = .error (.ret (unfinished l)) := by
  have hnul : (chunkEnv g u).buf[l.t]? = some nul := by
    rw [hend]
    simp
  rw [← finish_unfinished hl (.inr hend), cparseHead, Env.read, hnul, ok_bind]
  by_cases h15 : l.state = .s15
  · rw [if_pos h15, if_pos hend]
  · rw [if_neg h15, if_pos (.inl rfl)]

lemma head_nul (hl : Rooted l) (h15 : l.state ≠ .s15) (hnul : u[l.t]? = some nul) :
    cparseHead (chunkEnv g u) l = .error (.ret (unfinished l)) := by
  have hread : (chunkEnv g u).buf[l.t]? = some nul := by
    rw [List.getElem?_append_left (List.getElem?_eq_some_iff.mp hnul).1, hnul]
  rw [← finish_unfinished hl (.inl hnul), cparseHead, Env.read, hread, ok_bind, if_neg h15,
    if_pos (.inl rfl)]

/-- Away from a pair at the end, a round does not leave the chunk. -/
lemma inside_chunk (hlt : l.t < u.length) (hp : ¬ PairLast u l) :
    l.t + headSteps (chunkEnv g u) l ≤ u.length := by
  have htwo := headSteps_le_two (chunkEnv g u) l
  by_cases hpair : headSteps (chunkEnv g u) l = 2
  · obtain ⟨hs, hesc, c, hc, hq⟩ := pair_of_headSteps hpair
    rw [List.getElem?_append_left hlt] at hc
    have hfar : l.t + 1 ≠ u.length := fun heq => hp ⟨hs, heq, c, hc, by rw [hesc, hq]; rfl⟩
    omega
  · omega

end Chunk

section Whole

variable {g : Setup} {u v pre : List Byte} {n : Nat} {E : List Event} {start l l' : Locals} {R : Return}

lemma ahead_chunkEnv : ahead pre (chunkEnv g u) = chunkEnv g (pre ++ u) := by
  simp [ahead, chunkEnv]

lemma Displaced.next {d : Nat} {y : Exec Locals} (hy : Displaced d n E (.ok l) y) :
    ∃ a x, y = .ok (moved d n E a x l) := by
  rcases y with (r | f) | l'
  · exact hy.elim
  · exact hy.elim
  · obtain ⟨a, x, rfl⟩ := hy
    exact ⟨a, x, rfl⟩

lemma Displaced.return {d : Nat} {y : Exec Locals} (hy : Displaced d n E (.error (.ret R)) y) :
    R.cc.lastPos = some R.cursor ∧ y = .error (.ret (movedReturn d E R)) := by
  rcases y with (r | f) | l'
  · obtain ⟨hpos, rfl⟩ := hy
    exact ⟨hpos, rfl⟩
  · exact hy.elim
  · exact hy.elim

lemma Displaced.fault {d : Nat} {f : Fault} {y : Exec Locals}
    (hy : Displaced d n E (.error (.fault f)) y) : y = .error (.fault f) := by
  rcases y with (r | f') | l'
  · exact hy.elim
  · have hsame : f' = f := hy
    rw [hsame]
  · exact hy.elim

/-- A round inside the chunk is one of the call on the whole input. -/
lemma displaced_longer (h : g.Succeeds) (hlt : l.t < u.length) (hp : ¬ PairLast u l)
    (hbyte : l.state ≠ .s15 → u[l.t]? ≠ some nul) (a : Nat) (x : List Sexp) :
    Displaced pre.length n E (cparseHead (chunkEnv g u) l)
      (cparseHead (chunkEnv g (pre ++ (u ++ v))) (moved pre.length n E a x l)) := by
  rw [← ahead_chunkEnv, ← head_longer hlt hp hbyte]
  apply displaced_cparseHead h
  · intro hend
    rw [show (chunkEnv g (u ++ v)).len = (u ++ v).length from rfl, List.length_append] at hend
    omega
  · intro h15
    rw [getElem?_longer hlt, List.getElem?_append_left hlt]
    exact hbyte h15

/-- A call that is not at its end has a byte to read, other than a NUL outside a blob. -/
lemma inside_of_goesOn (hroot : Rooted l) (hin : l.t ≤ u.length)
    (hgoes : cparseHead (chunkEnv g u) l ≠ .error (.ret (unfinished l))) :
    l.t < u.length ∧ (l.state ≠ .s15 → u[l.t]? ≠ some nul) := by
  constructor
  · apply lt_of_le_of_ne hin
    intro hend
    exact hgoes (head_end hroot hend)
  · intro h15 hnul
    exact hgoes (head_nul hroot h15 hnul)

/-- A round that stays in the loop does so in the call on the whole input. -/
lemma chunk_next (h : g.Succeeds) (hroot : Rooted l) (hsane : Sane l.toRegs) (hin : l.t ≤ u.length)
    (hp : ¬ PairLast u l) (hrun : cparseHead (chunkEnv g u) l = .ok l') (a : Nat) (x : List Sexp) :
    Sane l'.toRegs ∧ l'.t ≤ u.length ∧
      ∃ a' x', cparseHead (chunkEnv g (pre ++ (u ++ v))) (moved pre.length n E a x l) =
        .ok (moved pre.length n E a' x' l') := by
  have hgoes : cparseHead (chunkEnv g u) l ≠ .error (.ret (unfinished l)) := by
    simp [hrun]
  obtain ⟨hlt, hbyte⟩ := inside_of_goesOn hroot hin hgoes
  have hmoves : Moves l (headSteps (chunkEnv g u) l) (cparseHead (chunkEnv g u) l) :=
    moves_cparseHead hsane
  have hround := @displaced_longer g u v pre n E l h hlt hp hbyte a x
  rw [hrun] at hmoves hround
  exact ⟨hmoves.1.sane, Nat.le_trans hmoves.1.high (inside_chunk hlt hp), hround.next⟩

/-- The call on the whole input returns the same as the call on the chunk, unless this one has come to
its end, or to a NUL, without a tree. -/
lemma chunk_exit (h : g.Succeeds) (hsane : Sane l.toRegs) (hin : l.t ≤ u.length) {a : Nat}
    {x : List Sexp} (hroot : Rooted l) (hroot' : Rooted (moved pre.length n E a x l))
    (hret : cparseHead (chunkEnv g u) l = .error (.ret R)) :
    (R.cc.lastPos = some R.cursor ∧ R.cursor ≤ u.length ∧
      cparseHead (chunkEnv g (pre ++ (u ++ v))) (moved pre.length n E a x l) =
        .error (.ret (movedReturn pre.length E R))) ∨
      R = unfinished l ∧ (l.t = u.length ∨ l.t < u.length ∧
        cparseHead (chunkEnv g (pre ++ (u ++ v))) (moved pre.length n E a x l) =
          .error (.ret (unfinished (moved pre.length n E a x l)))) := by
  by_cases hend : l.t = u.length
  · rw [head_end hroot hend] at hret
    cases hret
    exact .inr ⟨rfl, .inl hend⟩
  have hlt : l.t < u.length := lt_of_le_of_ne hin hend
  by_cases hbyte : l.state ≠ .s15 → u[l.t]? ≠ some nul
  · have hp : ¬ PairLast u l := by
      intro hp
      have hover := head_pairLast h hp
      rw [hret] at hover
      exact hover
    have hmoves : Moves l (headSteps (chunkEnv g u) l) (cparseHead (chunkEnv g u) l) :=
      moves_cparseHead hsane
    have hround := @displaced_longer g u v pre n E l h hlt hp hbyte a x
    rw [hret] at hmoves hround
    obtain ⟨hpos, hwhole⟩ := hround.return
    exact .inl ⟨hpos, Nat.le_trans hmoves.high (inside_chunk hlt hp), hwhole⟩
  · obtain ⟨h15, hnul⟩ := Classical.not_imp.mp hbyte
    have hnul : u[l.t]? = some nul := not_not.mp hnul
    rw [head_nul hroot h15 hnul] at hret
    cases hret
    refine .inr ⟨rfl, .inr ⟨hlt, head_nul hroot' h15 ?_⟩⟩
    change (pre ++ (u ++ v))[pre.length + l.t]? = some nul
    rw [List.getElem?_append_right (Nat.le_add_right _ _), Nat.add_sub_cancel_left,
      List.getElem?_append_left hlt, hnul]

/-- What makes the call on the chunk undefined makes the call on the whole input undefined. -/
lemma chunk_fault (h : g.Succeeds) (hin : l.t ≤ u.length) (hroot : Rooted l) (hp : ¬ PairLast u l)
    {f : Fault} (hfault : cparseHead (chunkEnv g u) l = .error (.fault f)) (a : Nat) (x : List Sexp) :
    cparseHead (chunkEnv g (pre ++ (u ++ v))) (moved pre.length n E a x l) = .error (.fault f) := by
  have hgoes : cparseHead (chunkEnv g u) l ≠ .error (.ret (unfinished l)) := by
    simp [hfault]
  obtain ⟨hlt, hbyte⟩ := inside_of_goesOn hroot hin hgoes
  have hround := @displaced_longer g u v pre n E l h hlt hp hbyte a x
  rw [hfault] at hround
  exact hround.fault

/-- The elements that the round ends are the same. -/
lemma nested_moved {a a' : Nat} {x x' : List Sexp} (hrun : cparseHead (chunkEnv g u) l = .ok l')
    (hnext : cparseHead (chunkEnv g (pre ++ (u ++ v))) (moved pre.length n E a x l) =
      .ok (moved pre.length n E a' x' l')) :
    Nested (chunkEnv g u) l ↔ Nested (chunkEnv g (pre ++ (u ++ v))) (moved pre.length n E a x l) := by
  constructor
  · intro hnested l₂ hl₂ hmore
    rw [hnext] at hl₂
    obtain rfl := Except.ok.inj hl₂
    exact hnested l' hrun (Nat.lt_of_add_lt_add_left hmore)
  · intro hnested l₂ hl₂ hmore
    rw [hrun] at hl₂
    obtain rfl := Except.ok.inj hl₂
    exact hnested (moved pre.length n E a' x' l') hnext (Nat.add_lt_add_left hmore n)

/-- The call on the whole input has come as far as the call on the chunk `u` of it, which begins behind
`pre`. -/
structure Together (g : Setup) (u v pre : List Byte) (n : Nat) (E : List Event) (start l : Locals) :
    Prop where
  stays : StaysNested (chunkEnv g u) l
  sane : Sane l.toRegs
  inside : l.t ≤ u.length
  whole : ∃ a x, Rooted (moved pre.length n E a x l) ∧
    Loop.ReachesWhile (cparseHead (chunkEnv g (pre ++ (u ++ v))))
      (Nested (chunkEnv g (pre ++ (u ++ v)))) start (moved pre.length n E a x l)

lemma rooted_of_moved {d a : Nat} {x : List Sexp} (hroot : Rooted (moved d n E a x l)) : Rooted l :=
  ⟨hroot.shaped, fun hpos => hroot.nested (Nat.lt_of_lt_of_le hpos (Nat.le_add_left _ _))⟩

lemma Together.rooted (hl : Together g u v pre n E start l) : Rooted l := by
  obtain ⟨a, x, hroot, -⟩ := hl.whole
  exact rooted_of_moved hroot

lemma Together.next (h : g.Succeeds) (hl : Together g u v pre n E start l)
    (hrun : cparseHead (chunkEnv g u) l = .ok l') :
    Together g u v pre n E start l' ∨ RanOver u l' := by
  by_cases hp : PairLast u l
  · have hover := head_pairLast h hp
    rw [hrun] at hover
    exact .inr hover
  · obtain ⟨a, x, hroot', hreach⟩ := hl.whole
    obtain ⟨hsane, hin, a', x', hnext⟩ := @chunk_next g u v pre n E l l' h hl.rooted hl.sane hl.inside
      hp hrun a x
    have hnested := (nested_moved hrun hnext).mp (hl.stays l .refl)
    exact .inl {
      stays := fun _ hrest => hl.stays _ (.head hrun hrest)
      sane := hsane
      inside := hin
      whole := ⟨a', x', rooted_next h hnested hroot' hnext, hreach.tail ⟨hnested, hnext⟩⟩ }

/-- The call on the whole input returns the same as the call on the chunk, unless this one has come to
the end without a tree. -/
lemma Together.exit (h : g.Succeeds) (hl : Together g u v pre n E start l)
    (hret : cparseHead (chunkEnv g u) l = .error (.ret R)) :
    (R.cc.lastPos = some R.cursor ∧ R.cursor ≤ u.length ∧
      ∃ a x, cparseHead (chunkEnv g (pre ++ (u ++ v))) (moved pre.length n E a x l) =
        .error (.ret (movedReturn pre.length E R)) ∧
        Loop.ReachesWhile (cparseHead (chunkEnv g (pre ++ (u ++ v))))
          (Nested (chunkEnv g (pre ++ (u ++ v)))) start (moved pre.length n E a x l)) ∨
      R = unfinished l := by
  obtain ⟨a, x, hroot', hreach⟩ := hl.whole
  rcases chunk_exit h hl.sane hl.inside hl.rooted hroot' hret with
    ⟨hpos, hle, hwhole⟩ | ⟨hleft, -⟩
  · exact .inl ⟨hpos, hle, a, x, hwhole, hreach⟩
  · exact .inr hleft

/-- What a return leaves to the next call. -/
lemma chunk_left (h : g.Succeeds) (hroot : Rooted l) (hsane : Sane l.toRegs)
    (hret : cparseHead (chunkEnv g u) l = .error (.ret R)) :
    Sane R.cc.toRegs ∧ ∃ s, Shaped R.cc.toRegs s := by
  obtain ⟨s, hs⟩ := hroot.shaped
  obtain ⟨s', -, hk⟩ := linkHead_of_error h hs hret
  have hmoves : Moves l (headSteps (chunkEnv g u) l) (cparseHead (chunkEnv g u) l) :=
    moves_cparseHead hsane
  rw [hret] at hmoves
  exact ⟨hmoves.sane, s', hk.shaped⟩

/-- The last head of a call on a chunk is reached together with the call on the whole input. -/
lemma Together.last (h : g.Succeeds) (hl : Together g u v pre n E start l)
    (hrun : Loop.Halts (cparseHead (chunkEnv g u)) l (.ret R)) :
    ∃ l', Together g u v pre n E start l' ∧ cparseHead (chunkEnv g u) l' = .error (.ret R) := by
  obtain ⟨l', hreach, hret⟩ := Loop.exit_of_halts hrun
  have hstep : ∀ l₁ l₂, Together g u v pre n E start l₁ ∨ RanOver u l₁ →
      cparseHead (chunkEnv g u) l₁ = .ok l₂ → Together g u v pre n E start l₂ ∨ RanOver u l₂ := by
    rintro l₁ l₂ (hl₁ | hover) hnext
    · exact hl₁.next h hnext
    · rw [head_ranOver hover] at hnext
      cases hnext
  rcases Loop.invariant_of_step hstep (.inl hl) hreach with hl' | hover
  · exact ⟨l', hl', hret⟩
  · rw [head_ranOver hover] at hret
    cases hret

end Whole

section Clients

variable {g : Setup} {w : List Byte} {l l' : Locals} {R : Return} {rs : List Return}

/-- What is left of a client run on the whole input `w`, from the middle of a call. -/
inductive RunFrom (g : Setup) (w : List Byte) (l : Locals) : List Return → Prop
  | stop {R : Return} (hrun : Loop.Halts (cparseHead (chunkEnv g w)) l (.ret R))
      (hnested : StaysNested (chunkEnv g w) l) (hbad : R.cc.error = .badForm) : RunFrom g w l [R]
  | again {R : Return} {rs : List Return} (hrun : Loop.Halts (cparseHead (chunkEnv g w)) l (.ret R))
      (hnested : StaysNested (chunkEnv g w) l) (hgood : R.cc.error ≠ .badForm)
      (hpos : R.cc.lastPos ≠ none) (hrest : ClientRun g [w] R.cc R.errno rs) :
      RunFrom g w l (R :: rs)
  | last {R : Return} (hrun : Loop.Halts (cparseHead (chunkEnv g w)) l (.ret R))
      (hnested : StaysNested (chunkEnv g w) l) (hgood : R.cc.error ≠ .badForm)
      (hpos : R.cc.lastPos = none) (hend : R.cursor = w.length) : RunFrom g w l [R]

lemma nested_of_exit {env : Env} {stop : Stop} (hexit : cparseHead env l = .error stop) :
    StaysNested env l := by
  intro l' hreach l'' hnext
  rcases Relation.ReflTransGen.cases_head hreach with rfl | ⟨l₁, hstep, -⟩
  · rw [hexit] at hnext
    cases hnext
  · have hstep : cparseHead env l = .ok l₁ := hstep
    rw [hexit] at hstep
    cases hstep

lemma RunFrom.of_end (hroot : Rooted l) (hend : l.t = w.length) : RunFrom g w l [unfinished l] := by
  have hexit : cparseHead (chunkEnv g w) l = .error (.ret (unfinished l)) := head_end hroot hend
  apply RunFrom.last (Loop.halts_of_exit hexit) (nested_of_exit hexit) _ rfl hend
  rintro ⟨⟩

lemma halts_of_reachesWhile {env : Env} {stop : Stop}
    (hreach : Loop.ReachesWhile (cparseHead env) (Nested env) l l')
    (hrun : Loop.Halts (cparseHead env) l' stop) : Loop.Halts (cparseHead env) l stop :=
  Loop.halts_of_reaches (hreach.lift id fun _ _ hstep => hstep.2) hrun

lemma RunFrom.of_reaches (hrun : RunFrom g w l' rs)
    (hreach : Loop.ReachesWhile (cparseHead (chunkEnv g w)) (Nested (chunkEnv g w)) l l') :
    RunFrom g w l rs := by
  cases hrun with
  | stop hrun hnested hbad =>
    exact .stop (halts_of_reachesWhile hreach hrun) (nested_of_reaches hreach hnested) hbad
  | again hrun hnested hgood hpos hrest =>
    exact .again (halts_of_reachesWhile hreach hrun) (nested_of_reaches hreach hnested) hgood hpos hrest
  | last hrun hnested hgood hpos hend =>
    exact .last (halts_of_reachesWhile hreach hrun) (nested_of_reaches hreach hnested) hgood hpos hend

variable {cc : Pcont} {errno : ErrCode}

lemma cparseSexp_of_halts (hsane : Sane cc.toRegs) (hmode : cc.mode ≠ .eventsOnly)
    (hrun : Loop.Halts (cparseHead (chunkEnv g w)) (cc.enter 0) (.ret R)) :
    cparseSexp g (some (w ++ [nul])) w.length (some cc) errno = .ret R :=
  @cparseSexp_eq_of_halts ⟨g, w ++ [nul], w.length, errno⟩ cc hmode hsane _ hrun

lemma run_of_cparseSexp (hmode : cc.mode ≠ .eventsOnly)
    (hrun : cparseSexp g (some (w ++ [nul])) w.length (some cc) errno = .ret R) :
    Loop.run (cparseHead (chunkEnv g w)) (fuel (chunkEnv g w)) (cc.enter 0) = some (.ret R) := by
  rw [cparseSexp, if_neg hmode] at hrun
  exact runParser_ret hrun

lemma halts_of_cparseSexp (hmode : cc.mode ≠ .eventsOnly)
    (hrun : cparseSexp g (some (w ++ [nul])) w.length (some cc) errno = .ret R) :
    Loop.Halts (cparseHead (chunkEnv g w)) (cc.enter 0) (.ret R) :=
  ⟨_, run_of_cparseSexp hmode hrun⟩

lemma nestedCall_of_stays (hmode : cc.mode ≠ .eventsOnly)
    (hnested : StaysNested (chunkEnv g w) (cc.enter 0)) :
    NestedCall ⟨g, some (w ++ [nul]), w.length, some cc⟩ := by
  refine ⟨?_, hnested⟩
  intro cc' hcc'
  obtain rfl : cc = cc' := Option.some.inj hcc'
  exact hmode

lemma RunFrom.clientRun (hsane : Sane cc.toRegs) (hmode : cc.mode ≠ .eventsOnly)
    (hrun : RunFrom g w (cc.enter 0) rs) : ClientRun g [w] cc errno rs := by
  cases hrun with
  | stop hrun hnested hbad =>
    exact .stop (nestedCall_of_stays hmode hnested) (cparseSexp_of_halts hsane hmode hrun) hbad
  | again hrun hnested hgood hpos hrest =>
    exact .again (nestedCall_of_stays hmode hnested) (cparseSexp_of_halts hsane hmode hrun) hgood hpos
      hrest
  | last hrun hnested hgood hpos hend =>
    exact .next (nestedCall_of_stays hmode hnested) (cparseSexp_of_halts hsane hmode hrun) hgood hpos
      hend .done

lemma clientRun_ne_nil {chunks : List (List Byte)} (hrun : ClientRun g chunks cc errno rs)
    (hne : chunks ≠ []) : rs ≠ [] := by
  cases hrun with
  | done => exact absurd rfl hne
  | stop => exact List.cons_ne_nil _ _
  | again => exact List.cons_ne_nil _ _
  | next => exact List.cons_ne_nil _ _

/-- The same reading with the callbacks `E` before. -/
structure SameBehind (E : List Event) (rs rs' : List Return) : Prop where
  chains : chainsOf rs = chainsOf rs'
  callbacks : E ++ callbacksOf rs = callbacksOf rs'
  left : leftBehind rs = leftBehind rs'

lemma chainsOf_cons (R : Return) (rs : List Return) : chainsOf (R :: rs) =
    if R.cc.lastSexp.isEmpty then chainsOf rs else R.cc.lastSexp :: chainsOf rs := by
  rw [chainsOf, List.map_cons, List.filter_cons]
  cases R.cc.lastSexp.isEmpty <;> rfl

lemma leftBehind_cons (R : Return) (hne : rs ≠ []) : leftBehind (R :: rs) = leftBehind rs := by
  obtain ⟨R', rs, rfl⟩ := List.exists_cons_of_ne_nil hne
  rw [leftBehind, List.getLast?_cons_cons, leftBehind]

lemma SameBehind.single (d : Nat) (E : List Event) (R : Return) :
    SameBehind E [R] [movedReturn d E R] :=
  ⟨rfl, by simp [callbacksOf, movedReturn], rfl⟩

lemma SameBehind.cons (d : Nat) {E : List Event} {rs' : List Return} (hne : rs ≠ []) (hne' : rs' ≠ [])
    (h : SameBehind [] rs rs') : SameBehind E (R :: rs) (movedReturn d E R :: rs') := by
  have hcallbacks : callbacksOf rs = callbacksOf rs' := h.callbacks
  refine ⟨?_, ?_, ?_⟩
  · rw [chainsOf_cons, chainsOf_cons, h.chains]
    rfl
  · simp only [callbacksOf, List.flatMap_cons, movedReturn, List.append_assoc] at hcallbacks ⊢
    rw [hcallbacks]
  · rw [leftBehind_cons _ hne, leftBehind_cons _ hne', h.left]

lemma SameBehind.last (d n a : Nat) (E : List Event) (x : List Sexp) (l : Locals) :
    SameBehind E [unfinished l] [unfinished (moved d n E a x l)] :=
  ⟨rfl, by simp [callbacksOf, Proofs.unfinished, moved], rfl⟩

lemma SameBehind.unfinished {E : List Event} {rs' : List Return} (hne : rs ≠ [])
    (h : SameBehind (E ++ l.events) rs rs') : SameBehind E (unfinished l :: rs) rs' := by
  refine ⟨h.chains, ?_, ?_⟩
  · rw [← h.callbacks, callbacksOf, List.flatMap_cons, List.append_assoc]
    rfl
  · rw [leftBehind_cons _ hne, h.left]

/-- The next chunk begins where the call on the whole input has come to. -/
lemma moved_unfinished (pre u : List Byte) (n a : Nat) (E : List Event) (x : List Sexp)
    (hend : l.t = u.length) :
    moved (pre ++ u).length (n + l.elts) (E ++ l.events) a x ((unfinished l).cc.enter 0) =
      moved pre.length n E a x l := by
  simp [moved, unfinished, Pcont.enter, hend]

lemma enter_moved (d : Nat) (E : List Event) (hpos : R.cc.lastPos = some R.cursor) :
    (movedReturn d E R).cc.enter 0 = moved d 0 [] 0 [] (R.cc.enter 0) := by
  simp [moved, movedReturn, Pcont.enter, hpos]

lemma moved_nil : moved ([] : List Byte).length 0 [] 0 [] (cc.enter 0) = cc.enter 0 := by
  simp [moved, Pcont.enter]

/-- No element has ended when a call begins. -/
lemma rooted_enter (d : Nat) (hshape : ∃ s, Shaped cc.toRegs s) :
    Rooted (moved d 0 [] 0 [] (cc.enter 0)) :=
  ⟨hshape, fun hpos => absurd hpos (Nat.lt_irrefl 0)⟩

lemma resumed_inside {u : List Byte} {rest : List (List Byte)} (hlast : R.cc.lastPos = some R.cursor)
    (hle : R.cursor ≤ u.length) : ∀ p ∈ R.cc.lastPos, ∀ u' ∈ (u :: rest).head?, p ≤ u'.length := by
  intro p hp u' hu'
  obtain rfl : R.cursor = p := Option.some.inj (hlast.symm.trans hp)
  obtain rfl : u = u' := Option.some.inj hu'
  exact hle

lemma fresh_inside {chunks : List (List Byte)} (hpos : cc.lastPos = none) :
    ∀ p ∈ cc.lastPos, ∀ u ∈ chunks.head?, p ≤ u.length := by
  rw [hpos]
  rintro p hp
  cases hp

lemma mode_of_clientRun {chunks : List (List Byte)} (hrun : ClientRun g chunks cc errno rs)
    (hne : chunks ≠ []) : cc.mode ≠ .eventsOnly := by
  cases hrun with
  | done => exact absurd rfl hne
  | stop hcall => exact hcall.1 cc rfl
  | again hcall => exact hcall.1 cc rfl
  | next hcall => exact hcall.1 cc rfl

/-- The last head of a call on a chunk, with that of the call on the whole input. -/
lemma together_of_call (h : g.Succeeds) {u v pre : List Byte} {n a : Nat} {E : List Event}
    {x : List Sexp} (hcall : NestedCall ⟨g, some (u ++ [nul]), u.length, some cc⟩)
    (hrun : cparseSexp g (some (u ++ [nul])) u.length (some cc) errno = .ret R)
    (hsane : Sane cc.toRegs) (hpos : ∀ p ∈ cc.lastPos, p ≤ u.length)
    (hroot : Rooted (moved pre.length n E a x (cc.enter 0))) :
    ∃ l, Together g u v pre n E (moved pre.length n E a x (cc.enter 0)) l ∧
      cparseHead (chunkEnv g u) l = .error (.ret R) := by
  have hinside : (cc.enter 0).t ≤ u.length := by
    rw [Pcont.enter]
    rcases hlast : cc.lastPos with _ | p
    · exact Nat.zero_le _
    · exact hpos p hlast
  apply Together.last h ⟨hcall.2, hsane, hinside, a, x, hroot, .refl⟩
  exact halts_of_cparseSexp (hcall.1 cc rfl) hrun

/-- A client run on chunks, and the run on all of them at once, from the middle of a call that has read
`pre`. -/
lemma runFrom_of_clientRun (h : g.Succeeds) {chunks : List (List Byte)}
    (hrun : ClientRun g chunks cc errno rs) (hne : chunks ≠ []) {pre : List Byte} {n a : Nat}
    {E : List Event} {x : List Sexp} (hsane : Sane cc.toRegs)
    (hpos : ∀ p ∈ cc.lastPos, ∀ u ∈ chunks.head?, p ≤ u.length)
    (hroot : Rooted (moved pre.length n E a x (cc.enter 0))) :
    ∃ rs', RunFrom g (pre ++ chunks.flatten) (moved pre.length n E a x (cc.enter 0)) rs' ∧
      SameBehind E rs rs' := by
  induction hrun generalizing pre n a E x with
  | done => exact absurd rfl hne
  | @stop u rest cc errno R hcall hrun hbad =>
    obtain ⟨l, hl, hret⟩ := @together_of_call g R cc errno h u rest.flatten pre n a E x hcall hrun hsane
      (fun p hp => hpos p hp u rfl) hroot
    rcases hl.exit h hret with ⟨-, -, a', x', hwhole, hreach⟩ | rfl
    · have hstop : RunFrom g (pre ++ (u ++ rest.flatten)) (moved pre.length n E a' x' l)
          [movedReturn pre.length E R] :=
        .stop (Loop.halts_of_exit hwhole) (nested_of_exit hwhole) hbad
      exact ⟨_, hstop.of_reaches hreach, .single _ _ _⟩
    · cases hbad
  | @again u rest cc errno R rs hcall hrun hgood hagain hrest ih =>
    obtain ⟨l, hl, hret⟩ := @together_of_call g R cc errno h u rest.flatten pre n a E x hcall hrun hsane
      (fun p hp => hpos p hp u rfl) hroot
    rcases hl.exit h hret with ⟨hlast, hle, a', x', hwhole, hreach⟩ | rfl
    · obtain ⟨hsane', hshape⟩ := chunk_left h hl.rooted hl.sane hret
      obtain ⟨rs', hfrom, hsame⟩ := ih (List.cons_ne_nil _ _) hsane' (resumed_inside hlast hle)
        (rooted_enter pre.length hshape)
      rw [← enter_moved pre.length E hlast] at hfrom
      have hmode : R.cc.mode ≠ .eventsOnly := mode_of_clientRun hrest (List.cons_ne_nil _ _)
      have hnext : ClientRun g [pre ++ (u ++ rest.flatten)] (movedReturn pre.length E R).cc
          (movedReturn pre.length E R).errno rs' :=
        hfrom.clientRun hsane' hmode
      have hagain' : (movedReturn pre.length E R).cc.lastPos ≠ none := by
        simp [movedReturn, hlast]
      have hwhole' : RunFrom g (pre ++ (u ++ rest.flatten)) (moved pre.length n E a' x' l)
          (movedReturn pre.length E R :: rs') :=
        .again (Loop.halts_of_exit hwhole) (nested_of_exit hwhole) hgood hagain' hnext
      exact ⟨_, hwhole'.of_reaches hreach, hsame.cons pre.length
        (clientRun_ne_nil hrest (List.cons_ne_nil _ _)) (clientRun_ne_nil hnext (List.cons_ne_nil _ _))⟩
    · exact absurd rfl hagain
  | @next u rest cc errno R rs hcall hrun hgood hlast hend hrest ih =>
    obtain ⟨l, hl, hret⟩ := @together_of_call g R cc errno h u rest.flatten pre n a E x hcall hrun hsane
      (fun p hp => hpos p hp u rfl) hroot
    rcases hl.exit h hret with ⟨hsome, -⟩ | rfl
    · rw [hlast] at hsome
      cases hsome
    obtain ⟨hsane', -⟩ := chunk_left h hl.rooted hl.sane hret
    obtain ⟨a', x', hroot', hreach⟩ := hl.whole
    cases rest with
    | nil =>
      cases hrest
      have hend' : (moved pre.length n E a' x' l).t = (pre ++ (u ++ [])).length := by
        have hend : l.t = u.length := hend
        simp [moved, hend]
      have hlast' : RunFrom g (pre ++ (u ++ [])) (moved pre.length n E a' x' l)
          [unfinished (moved pre.length n E a' x' l)] := .of_end hroot' hend'
      exact ⟨_, hlast'.of_reaches hreach, .last _ _ _ _ _ _⟩
    | cons v rest =>
      rw [← moved_unfinished pre u n a' E x' hend] at hroot' hreach
      obtain ⟨rs', hfrom, hsame⟩ := ih (List.cons_ne_nil _ _) hsane' (fresh_inside rfl) hroot'
      rw [List.append_assoc] at hfrom
      exact ⟨rs', hfrom.of_reaches hreach,
        hsame.unfinished (clientRun_ne_nil hrest (List.cons_ne_nil _ _))⟩

lemma drive_of_clientRun {chunks : List (List Byte)} (hrun : ClientRun g chunks cc errno rs) :
    ∃ n, drive g n chunks cc errno = some rs := by
  induction hrun with
  | done => exact ⟨0, rfl⟩
  | stop hcall hrun hbad =>
    refine ⟨1, ?_⟩
    rw [drive, hrun]
    exact if_pos hbad
  | again hcall hrun hgood hpos hrest ih =>
    obtain ⟨n, hn⟩ := ih
    refine ⟨n + 1, ?_⟩
    rw [drive, hrun]
    dsimp only
    rw [if_neg hgood, if_neg hpos, hn]
    rfl
  | next hcall hrun hgood hpos hend hrest ih =>
    obtain ⟨n, hn⟩ := ih
    refine ⟨n + 1, ?_⟩
    rw [drive, hrun]
    dsimp only
    rw [if_neg hgood, if_pos hpos, hn]
    rfl

/-- A client that cuts its input into chunks gets the trees and the callbacks that it gets for the
whole of it, and the continuation ends up the same. -/
theorem chunks_invisible (h : g.Succeeds) (hcc : Session ParserCall cc) (hpos : cc.lastPos = none)
    {chunks : List (List Byte)} (hne : chunks ≠ []) (hrun : ClientRun g chunks cc errno rs) :
    ∃ rs', ClientRun g [chunks.flatten] cc errno rs' ∧
      (∃ n, drive g n [chunks.flatten] cc errno = some rs') ∧ SameReading rs rs' := by
  obtain ⟨s, -, hshape⟩ := linkSession_of_session hcc
  have hsane : Sane cc.toRegs := sane_of_session hcc
  have hroot := rooted_enter ([] : List Byte).length ⟨s, hshape⟩
  obtain ⟨rs', hfrom, hsame⟩ := runFrom_of_clientRun h hrun hne hsane (fresh_inside hpos) hroot
  rw [moved_nil] at hfrom
  have hwhole : ClientRun g [chunks.flatten] cc errno rs' :=
    hfrom.clientRun hsane (mode_of_clientRun hrun hne)
  exact ⟨rs', hwhole, drive_of_clientRun hwhole, hsame.chains, hsame.callbacks, hsame.left⟩

/-- The check of one round. -/
def nestedAt (env : Env) (l : Locals) : Bool :=
  match cparseHead env l with
  | .ok l' => decide (l'.elts ≤ l.elts) || !l'.stack.levels.isEmpty
  | .error _ => true

lemma nested_of_nestedAt {env : Env} (h : nestedAt env l = true) : Nested env l := by
  intro l' hrun hmore hempty
  rw [nestedAt, hrun] at h
  simp [hempty, Nat.not_le.mpr hmore] at h

/-- A call on a chunk whose rounds are checked one by one. -/
lemma nestedCall_of_checked (hmode : cc.mode ≠ .eventsOnly)
    (hrun : cparseSexp g (some (w ++ [nul])) w.length (some cc) errno = .ret R)
    (hall : (Loop.heads (cparseHead (chunkEnv g w)) (fuel (chunkEnv g w)) (cc.enter 0)).all
      (nestedAt (chunkEnv g w)) = true) :
    NestedCall ⟨g, some (w ++ [nul]), w.length, some cc⟩ := by
  apply nestedCall_of_stays hmode
  intro l' hreach
  have hmem := Loop.mem_heads_of_reaches (run_of_cparseSexp hmode hrun) hreach
  exact nested_of_nestedAt (List.all_eq_true.mp hall l' hmem)

/-- The blob of `(#b#3#...)` is cut behind its first byte, which is a NUL. -/
theorem chunks_invisible_blob :
    ∃ rs rs', rs.length = 3 ∧ (chainsOf rs).length = 1 ∧
      ClientRun .plain [[lparen, hash, letterB, hash, 51, hash, nul], [120, 121, rparen]]
        { Pcont.new .plain with mode := .inlineBinary } .ok rs ∧
      ClientRun .plain [[[lparen, hash, letterB, hash, 51, hash, nul], [120, 121, rparen]].flatten]
        { Pcont.new .plain with mode := .inlineBinary } .ok rs' ∧ SameReading rs rs' := by
  have hcheck : ((cparseSexp .plain (some ([lparen, hash, letterB, hash, 51, hash, nul] ++ [nul])) 7
      (some { Pcont.new .plain with mode := .inlineBinary }) .ok).returnOf.bind fun R₁ =>
        (cparseSexp .plain (some ([120, 121, rparen] ++ [nul])) 3 (some R₁.cc)
          R₁.errno).returnOf.bind fun R₂ =>
            (cparseSexp .plain (some ([120, 121, rparen] ++ [nul])) 3 (some R₂.cc)
              R₂.errno).returnOf.map fun R₃ =>
              decide ((R₁.cc.mode ≠ .eventsOnly ∧ R₁.cc.error ≠ .badForm ∧ R₁.cc.lastPos = none ∧
                  R₁.cursor = 7 ∧ R₁.cc.lastSexp.length = 0) ∧
                (R₂.cc.mode ≠ .eventsOnly ∧ R₂.cc.error ≠ .badForm ∧ R₂.cc.lastPos ≠ none ∧
                  R₂.cc.lastSexp.length = 1) ∧
                (R₃.cc.error ≠ .badForm ∧ R₃.cc.lastPos = none ∧ R₃.cursor = 3 ∧
                  R₃.cc.lastSexp.length = 0) ∧
                (Loop.heads
                  (cparseHead (chunkEnv .plain [lparen, hash, letterB, hash, 51, hash, nul]))
                  (fuel (chunkEnv .plain [lparen, hash, letterB, hash, 51, hash, nul]))
                  ({ Pcont.new .plain with mode := .inlineBinary : Pcont }.enter 0)).all
                  (nestedAt (chunkEnv .plain [lparen, hash, letterB, hash, 51, hash, nul])) = true ∧
                ∀ R ∈ [R₁, R₂], (Loop.heads (cparseHead (chunkEnv .plain [120, 121, rparen]))
                  (fuel (chunkEnv .plain [120, 121, rparen])) (R.cc.enter 0)).all
                  (nestedAt (chunkEnv .plain [120, 121, rparen])) = true)) = some true := by
    decide +kernel
  obtain ⟨R₁, hret₁, hcheck⟩ := Option.bind_eq_some_iff.mp hcheck
  obtain ⟨R₂, hret₂, hcheck⟩ := Option.bind_eq_some_iff.mp hcheck
  obtain ⟨R₃, hret₃, hcheck⟩ := Option.map_eq_some_iff.mp hcheck
  obtain ⟨⟨hmode₁, hgood₁, hpos₁, hend₁, hlen₁⟩, ⟨hmode₂, hgood₂, hpos₂, hlen₂⟩,
    ⟨hgood₃, hpos₃, hend₃, hlen₃⟩, hall₁, hall⟩ := of_decide_eq_true hcheck
  have hrun : ClientRun .plain [[lparen, hash, letterB, hash, 51, hash, nul], [120, 121, rparen]]
      { Pcont.new .plain with mode := .inlineBinary } .ok [R₁, R₂, R₃] := by
    apply ClientRun.next (nestedCall_of_checked (by decide) (of_returnOf hret₁) hall₁)
      (of_returnOf hret₁) hgood₁ hpos₁ hend₁
    apply ClientRun.again (nestedCall_of_checked hmode₁ (of_returnOf hret₂) (hall R₁ (by simp)))
      (of_returnOf hret₂) hgood₂ hpos₂
    exact .next (nestedCall_of_checked hmode₂ (of_returnOf hret₃) (hall R₂ (by simp)))
      (of_returnOf hret₃) hgood₃ hpos₃ hend₃ .done
  obtain ⟨rs', hwhole, -, hsame⟩ := chunks_invisible (fun _ => rfl)
    (.configure (.start (initContinuation_of_succeeds fun _ => rfl)) .inlineBinary none) rfl
    (List.cons_ne_nil _ _) hrun
  refine ⟨[R₁, R₂, R₃], rs', rfl, ?_, hrun, hwhole, hsame⟩
  have hempty₁ := List.length_eq_zero_iff.mp hlen₁
  have hempty₃ := List.length_eq_zero_iff.mp hlen₃
  have hone₂ : R₂.cc.lastSexp.isEmpty = false := by
    rw [List.isEmpty_eq_false_iff]
    exact List.ne_nil_of_length_pos (by omega)
  simp [hempty₁, hempty₃, hone₂, chainsOf]

end Clients

end Sfsexp.Proofs
