import Sfsexp.Proofs.Resumption

/-!
# Where a client can cut its input

The calls on the chunks return when the call on the whole input does, as long as no cut is behind an
escape pair inside double quotes.
-/

namespace Sfsexp.Proofs

open Sfsexp Spec

section Served

variable {g : Setup} {u v pre w : List Byte} {n : Nat} {E : List Event} {start l l' : Locals}
  {R R' : Return} {rs rs' : List Return} {cc : Pcont} {errno : ErrCode}

/-- The call on the chunk `u` has come as far as the call on the whole input, which began it at
`start`. -/
structure KeptUp (g : Setup) (u v pre : List Byte) (n : Nat) (E : List Event) (start l : Locals) :
    Prop where
  sane : Sane l.toRegs
  inside : l.t ≤ u.length
  mode : l.mode ≠ .eventsOnly
  whole : ∃ a x, Rooted (moved pre.length n E a x l) ∧
    Loop.Reaches (cparseHead (chunkEnv g (pre ++ (u ++ v)))) start (moved pre.length n E a x l)

lemma KeptUp.rooted (hl : KeptUp g u v pre n E start l) : Rooted l := by
  obtain ⟨a, x, hroot, -⟩ := hl.whole
  exact rooted_of_moved hroot

/-- No chunk ends behind an escape pair: the pair would end one there. -/
def PairsInside (g : Setup) (u v pre : List Byte) (n : Nat) (E : List Event) (start : Locals) : Prop :=
  ∀ l, KeptUp g u v pre n E start l → ¬ PairLast u l

lemma KeptUp.next (h : g.Succeeds) (hstays : StaysNested (chunkEnv g (pre ++ (u ++ v))) start)
    (hp : ¬ PairLast u l) (hl : KeptUp g u v pre n E start l)
    (hrun : cparseHead (chunkEnv g u) l = .ok l') :
    KeptUp g u v pre n E start l' ∧ Nested (chunkEnv g u) l := by
  obtain ⟨a, x, hroot', hreach⟩ := hl.whole
  obtain ⟨hsane, hin, a', x', hnext⟩ := @chunk_next g u v pre n E l l' h hl.rooted hl.sane hl.inside
    hp hrun a x
  have hnested : Nested (chunkEnv g (pre ++ (u ++ v))) (moved pre.length n E a x l) :=
    hstays _ hreach
  have hmode : InMode l.mode (cparseHead (chunkEnv g u) l) := inMode_cparseHead rfl
  rw [hrun] at hmode
  refine ⟨⟨hsane, hin, ?_, a', x', rooted_next h hnested hroot' hnext, hreach.tail hnext⟩,
    (nested_moved hrun hnext).mpr hnested⟩
  intro hevents
  exact hl.mode (hmode.symm.trans hevents)

lemma keptUp_of_reaches (h : g.Succeeds)
    (hstays : StaysNested (chunkEnv g (pre ++ (u ++ v))) start)
    (hpairs : PairsInside g u v pre n E start)
    (hl : KeptUp g u v pre n E start l) (hreach : Loop.Reaches (cparseHead (chunkEnv g u)) l l') :
    KeptUp g u v pre n E start l' :=
  Loop.invariant_of_step (fun l₁ _ hl₁ hrun => (hl₁.next h hstays (hpairs l₁ hl₁) hrun).1) hl hreach

/-- Every loop of the parser ends. -/
lemma chunk_ends (g : Setup) (u : List Byte) (hsane : Sane l.toRegs) :
    ∃ stop, Loop.Halts (cparseHead (chunkEnv g u)) l stop := by
  obtain ⟨stop, hrun⟩ := @run_ends ⟨g, u ++ [nul], u.length, .ok⟩ (Pcont.new g) l hsane
  have hhead : Call.head ⟨g, u ++ [nul], u.length, .ok⟩ (Pcont.new g) = cparseHead (chunkEnv g u) := by
    rw [Call.head, if_neg (by simp [Pcont.new])]
    rfl
  rw [hhead] at hrun
  exact ⟨stop, _, hrun⟩

/-- When the call on the whole input returns, so does the one on the chunk. -/
lemma chunk_served (h : g.Succeeds) (hstays : StaysNested (chunkEnv g (pre ++ (u ++ v))) start)
    (hpairs : PairsInside g u v pre n E start) (hl : KeptUp g u v pre n E start l)
    (hwhole : Loop.Halts (cparseHead (chunkEnv g (pre ++ (u ++ v)))) start (.ret R')) :
    ∃ R l', KeptUp g u v pre n E start l' ∧ cparseHead (chunkEnv g u) l' = .error (.ret R) ∧
      Loop.Halts (cparseHead (chunkEnv g u)) l (.ret R) ∧ StaysNested (chunkEnv g u) l := by
  have hnested : StaysNested (chunkEnv g u) l := by
    intro l₁ hreach l₂ hrun
    have hl₁ := keptUp_of_reaches h hstays hpairs hl hreach
    exact (hl₁.next h hstays (hpairs l₁ hl₁) hrun).2 l₂ hrun
  obtain ⟨stop, hhalts⟩ := chunk_ends g u hl.sane
  obtain ⟨l', hreach, hexit⟩ := Loop.exit_of_halts hhalts
  have hl' := keptUp_of_reaches h hstays hpairs hl hreach
  rcases stop with R | f
  · exact ⟨R, l', hl', hexit, hhalts, hnested⟩
  · obtain ⟨a, x, -, hreach'⟩ := hl'.whole
    have hfault := @chunk_fault g u v pre n E l' h hl'.inside hl'.rooted (hpairs l' hl') f hexit a x
    have hstop := Loop.halts_of_reaches hreach' (Loop.halts_of_exit hfault)
    cases Loop.halts_unique hwhole hstop

/-- What a loop returns is what its last head returns. -/
lemma return_of_reaches {env : Env} (hwhole : Loop.Halts (cparseHead env) start (.ret R'))
    (hreach : Loop.Reaches (cparseHead env) start l) (hret : cparseHead env l = .error (.ret R)) :
    R' = R :=
  Stop.ret.inj (Loop.halts_unique hwhole (Loop.halts_of_reaches hreach (Loop.halts_of_exit hret)))

lemma RunFrom.halts (hrun : RunFrom g w l rs) : ∃ R rs₁, rs = R :: rs₁ ∧
    Loop.Halts (cparseHead (chunkEnv g w)) l (.ret R) ∧ StaysNested (chunkEnv g w) l := by
  cases hrun with
  | stop hrun hnested => exact ⟨_, _, rfl, hrun, hnested⟩
  | again hrun hnested => exact ⟨_, _, rfl, hrun, hnested⟩
  | last hrun hnested => exact ⟨_, _, rfl, hrun, hnested⟩

lemma RunFrom.after (hrun : RunFrom g w l rs)
    (hreach : Loop.Reaches (cparseHead (chunkEnv g w)) l l') : RunFrom g w l' rs := by
  have hstays : StaysNested (chunkEnv g w) l → StaysNested (chunkEnv g w) l' :=
    fun hnested _ hmore => hnested _ (hreach.trans hmore)
  cases hrun with
  | stop hrun hnested hbad =>
    exact .stop (Loop.halts_of_halts_of_reaches hreach hrun) (hstays hnested) hbad
  | again hrun hnested hgood hpos hrest =>
    exact .again (Loop.halts_of_halts_of_reaches hreach hrun) (hstays hnested) hgood hpos hrest
  | last hrun hnested hgood hpos hend =>
    exact .last (Loop.halts_of_halts_of_reaches hreach hrun) (hstays hnested) hgood hpos hend

lemma runFrom_of_whole (hrun : ClientRun g [w] cc errno rs) : RunFrom g w (cc.enter 0) rs := by
  have hmode : cc.mode ≠ .eventsOnly := mode_of_clientRun hrun (List.cons_ne_nil _ _)
  cases hrun with
  | stop hcall hrun hbad => exact .stop (halts_of_cparseSexp hmode hrun) hcall.2 hbad
  | again hcall hrun hgood hpos hrest =>
    exact .again (halts_of_cparseSexp hmode hrun) hcall.2 hgood hpos hrest
  | next hcall hrun hgood hpos hend hrest =>
    cases hrest
    exact .last (halts_of_cparseSexp hmode hrun) hcall.2 hgood hpos hend

lemma wholeHead_of_reaches (hreach : Loop.Reaches (cparseHead (chunkEnv g w)) start l)
    (h : WholeHead g w l l') : WholeHead g w start l' := by
  cases h with
  | here hrest => exact .here (hreach.trans hrest)
  | again hrun hgood hpos hrest =>
    exact .again (Loop.halts_of_reaches hreach hrun) hgood hpos hrest

/-- From `start` on, no cut is behind an escape pair. The first chunk begins at `d`. -/
def CutsApart (g : Setup) (w : List Byte) (start : Locals) (d : Nat) (chunks : List (List Byte)) :
    Prop :=
  ∀ m i, WholeHead g w start m → ClosesPair w m → m.t + 1 ≠ d + (chunks.take i).flatten.length

/-- A pair at the end of the first chunk would be one in front of a cut. -/
lemma CutsApart.first {rest : List (List Byte)}
    (hcut : CutsApart g (pre ++ (u ++ v)) start pre.length (u :: rest)) :
    PairsInside g u v pre n E start := by
  rintro l hl ⟨hs, hlast, c, hc, hpair⟩
  obtain ⟨a, x, -, hreach⟩ := hl.whole
  have hlt : l.t < u.length := (List.getElem?_eq_some_iff.mp hc).1
  have hget : (pre ++ (u ++ v))[pre.length + l.t]? = some c := by
    rw [List.getElem?_append_right (Nat.le_add_right _ _), Nat.add_sub_cancel_left,
      List.getElem?_append_left hlt, hc]
  apply hcut (moved pre.length n E a x l) 1 (.here hreach) ⟨hs, c, hget, hpair⟩
  rw [List.take_succ_cons, List.take_zero, List.flatten_cons, List.flatten_nil, List.append_nil]
  change pre.length + l.t + 1 = pre.length + u.length
  omega

/-- The next call stands in the same chunk. -/
lemma CutsApart.again {d : Nat} {chunks : List (List Byte)} (hcut : CutsApart g w start d chunks)
    (hrun : Loop.Halts (cparseHead (chunkEnv g w)) start (.ret R)) (hgood : R.cc.error ≠ .badForm)
    (hpos : R.cc.lastPos ≠ none) : CutsApart g w (R.cc.enter 0) d chunks :=
  fun m i hm => hcut m i (.again hrun hgood hpos hm)

/-- The call goes on in the next chunk. -/
lemma CutsApart.next {rest : List (List Byte)} (hcut : CutsApart g w start pre.length (u :: rest))
    (hreach : Loop.Reaches (cparseHead (chunkEnv g w)) start l) :
    CutsApart g w l (pre ++ u).length rest := by
  intro m i hm hpair
  have hlater := hcut m (i + 1) (wholeHead_of_reaches hreach hm) hpair
  rw [List.take_succ_cons, List.flatten_cons, List.length_append] at hlater
  rw [List.length_append]
  omega

/-- The chunk at which a client stands, with what makes its call return. -/
lemma keptUp_enter {a : Nat} {x : List Sexp} (hsane : Sane cc.toRegs) (hmode : cc.mode ≠ .eventsOnly)
    (hpos : ∀ p ∈ cc.lastPos, p ≤ u.length) (hroot : Rooted (moved pre.length n E a x (cc.enter 0))) :
    KeptUp g u v pre n E (moved pre.length n E a x (cc.enter 0)) (cc.enter 0) := by
  refine ⟨hsane, ?_, hmode, a, x, hroot, .refl⟩
  rw [Pcont.enter]
  rcases hlast : cc.lastPos with _ | p
  · exact Nat.zero_le _
  · exact hpos p hlast

/-- A client run on all chunks at once, from the middle of a call that has read `pre`, and the run on
the chunks. -/
lemma clientRun_of_runFrom (h : g.Succeeds) (k : Nat) {chunks : List (List Byte)}
    (hk : rs'.length + chunks.length ≤ k) (hne : chunks ≠ []) {a : Nat} {x : List Sexp}
    (hsane : Sane cc.toRegs) (hmode : cc.mode ≠ .eventsOnly)
    (hpos : ∀ p ∈ cc.lastPos, ∀ u ∈ chunks.head?, p ≤ u.length)
    (hroot : Rooted (moved pre.length n E a x (cc.enter 0)))
    (hfrom : RunFrom g (pre ++ chunks.flatten) (moved pre.length n E a x (cc.enter 0)) rs')
    (hcut : CutsApart g (pre ++ chunks.flatten) (moved pre.length n E a x (cc.enter 0)) pre.length
      chunks) :
    ∃ rs, ClientRun g chunks cc errno rs ∧ SameBehind E rs rs' := by
  induction k generalizing chunks pre n E a x cc errno rs' with
  | zero =>
    have := List.length_pos_of_ne_nil hne
    omega
  | succ k ih =>
    obtain ⟨u, rest, rfl⟩ := List.exists_cons_of_ne_nil hne
    rw [List.flatten_cons] at hfrom hcut
    obtain ⟨R', rs₁, rfl, hwhole, hstays⟩ := hfrom.halts
    have hl : KeptUp g u rest.flatten pre n E (moved pre.length n E a x (cc.enter 0)) (cc.enter 0) :=
      keptUp_enter hsane hmode (fun p hp => hpos p hp u rfl) hroot
    obtain ⟨R, l, hl', hexit, hhalts, hnested⟩ := chunk_served h hstays hcut.first hl hwhole
    have hrun : cparseSexp g (some (u ++ [nul])) u.length (some cc) errno = .ret R :=
      cparseSexp_of_halts hsane hmode hhalts
    have hcall := nestedCall_of_stays hmode hnested
    obtain ⟨a', x', hroot', hreach⟩ := hl'.whole
    rcases chunk_exit h hl'.sane hl'.inside hl'.rooted hroot' hexit with
      ⟨hlast, hle, hret⟩ | ⟨rfl, hend | ⟨hlt, hret⟩⟩
    · obtain rfl := return_of_reaches hwhole hreach hret
      cases hfrom with
      | stop _ _ hbad => exact ⟨[R], .stop hcall hrun hbad, .single _ _ _⟩
      | last _ _ _ hnone => simp [movedReturn, hlast] at hnone
      | again _ _ hgood hagain hrest =>
        have hfrom' := runFrom_of_whole hrest
        rw [enter_moved pre.length E hlast] at hfrom'
        obtain ⟨hsane', hshape⟩ := chunk_left h hl'.rooted hl'.sane hexit
        have hmode' : (movedReturn pre.length E R).cc.mode ≠ .eventsOnly :=
          mode_of_clientRun hrest (List.cons_ne_nil _ _)
        have hcut' := hcut.again hwhole hgood hagain
        rw [enter_moved pre.length E hlast] at hcut'
        have hk' : rs₁.length + (u :: rest).length ≤ k := by
          rw [List.length_cons] at hk
          omega
        obtain ⟨rs, hchunks, hsame⟩ : ∃ rs, ClientRun g (u :: rest) R.cc R.errno rs ∧
            SameBehind [] rs rs₁ :=
          ih hk' (List.cons_ne_nil _ _) hsane' hmode' (resumed_inside hlast hle)
            (rooted_enter pre.length hshape) hfrom' hcut'
        exact ⟨R :: rs, .again hcall hrun hgood (by simp [hlast]) hchunks, hsame.cons pre.length
          (clientRun_ne_nil hchunks (List.cons_ne_nil _ _))
          (clientRun_ne_nil hrest (List.cons_ne_nil _ _))⟩
    · have hnext : ∀ rs, ClientRun g rest (unfinished l).cc (unfinished l).errno rs →
          ClientRun g (u :: rest) cc errno (unfinished l :: rs) := by
        intro rs hrest
        apply ClientRun.next hcall hrun _ rfl hend hrest
        rintro ⟨⟩
      have hfrom' := hfrom.after hreach
      cases rest with
      | nil =>
        have hend' : (moved pre.length n E a' x' l).t = (pre ++ (u ++ [])).length := by
          simp [moved, hend]
        obtain rfl := return_of_reaches hwhole hreach (head_end hroot' hend')
        cases hfrom' with
        | stop _ _ hbad => cases hbad
        | again _ _ _ hagain => exact absurd rfl hagain
        | last => exact ⟨[unfinished l], hnext [] .done, .last _ _ _ _ _ _⟩
      | cons v rest =>
        obtain ⟨hsane', -⟩ := chunk_left h hl'.rooted hl'.sane hexit
        have hcut' := hcut.next hreach
        rw [← moved_unfinished pre u n a' E x' hend] at hroot' hfrom' hcut'
        rw [← List.append_assoc] at hfrom' hcut'
        have hk' : (R' :: rs₁).length + (v :: rest).length ≤ k := by
          simp only [List.length_cons] at hk ⊢
          omega
        obtain ⟨rs, hchunks, hsame⟩ := ih hk' (List.cons_ne_nil _ _) hsane' hl'.mode
          (fresh_inside rfl) hroot' hfrom' hcut'
        exact ⟨unfinished l :: rs, hnext rs hchunks,
          hsame.unfinished (clientRun_ne_nil hchunks (List.cons_ne_nil _ _))⟩
    · obtain rfl := return_of_reaches hwhole hreach hret
      cases hfrom with
      | stop hrun hnested hbad => cases hbad
      | again hrun hnested hgood hagain => exact absurd rfl hagain
      | last hrun hnested hgood hnone hfar =>
        have hfar : pre.length + l.t = (pre ++ (u ++ rest.flatten)).length := hfar
        rw [List.length_append, List.length_append] at hfar
        omega

/-- A client that cuts its input anywhere but behind an escape pair inside double quotes is served as
one that passes the whole of it. -/
theorem chunks_served (h : g.Succeeds) (hcc : Session ParserCall cc) (hpos : cc.lastPos = none)
    {chunks : List (List Byte)} (hne : chunks ≠ []) (hrun : ClientRun g [chunks.flatten] cc errno rs')
    (hcut : ∀ m i, WholeHead g chunks.flatten (cc.enter 0) m → ClosesPair chunks.flatten m →
      m.t + 1 ≠ (chunks.take i).flatten.length) :
    ∃ rs, ClientRun g chunks cc errno rs ∧ (∃ n, drive g n chunks cc errno = some rs) ∧
      SameReading rs rs' := by
  obtain ⟨s, -, hshape⟩ := linkSession_of_session hcc
  have hfrom : RunFrom g ([] ++ chunks.flatten) (moved ([] : List Byte).length 0 [] 0 [] (cc.enter 0))
      rs' := by
    rw [moved_nil]
    exact runFrom_of_whole hrun
  have hcut' : CutsApart g ([] ++ chunks.flatten) (moved ([] : List Byte).length 0 [] 0 [] (cc.enter 0))
      ([] : List Byte).length chunks := by
    intro m i hm hpair
    rw [moved_nil] at hm
    rw [List.length_nil, Nat.zero_add]
    exact hcut m i hm hpair
  obtain ⟨rs, hchunks, hsame⟩ : ∃ rs, ClientRun g chunks cc errno rs ∧ SameBehind [] rs rs' :=
    clientRun_of_runFrom h _ (Nat.le_refl _) hne (sane_of_session hcc)
      (mode_of_clientRun hrun (List.cons_ne_nil _ _)) (fresh_inside hpos)
      (rooted_enter _ ⟨s, hshape⟩) hfrom hcut'
  exact ⟨rs, hchunks, drive_of_clientRun hchunks, hsame.chains, hsame.callbacks, hsame.left⟩

/-- The string of one double quote, cut inside its escape pair. -/
theorem chunks_served_pair :
    ∃ rs rs', (chainsOf rs').length = 1 ∧
      ClientRun .plain [[[dquote, backslash], [dquote, dquote]].flatten] (Pcont.new .plain) .ok
        rs' ∧
      ClientRun .plain [[dquote, backslash], [dquote, dquote]] (Pcont.new .plain) .ok rs ∧
      SameReading rs rs' := by
  have hcheck : ((cparseSexp .plain (some ([dquote, backslash, dquote, dquote] ++ [nul])) 4
      (some (Pcont.new .plain))
      .ok).returnOf.bind fun R₁ =>
        (cparseSexp .plain (some ([dquote, backslash, dquote, dquote] ++ [nul])) 4 (some R₁.cc)
          R₁.errno).returnOf.map
          fun R₂ =>
            decide ((R₁.cc.mode ≠ .eventsOnly ∧ R₁.cc.error ≠ .badForm ∧ R₁.cc.lastPos ≠ none ∧
                R₁.cc.lastSexp.length = 1) ∧
              (R₂.cc.error ≠ .badForm ∧ R₂.cc.lastPos = none ∧ R₂.cursor = 4 ∧
                R₂.cc.lastSexp.length = 0) ∧
              ∀ l₀ ∈ [(Pcont.new .plain).enter 0, R₁.cc.enter 0],
                (Loop.heads (cparseHead (chunkEnv .plain [dquote, backslash, dquote, dquote]))
                  (fuel (chunkEnv .plain [dquote, backslash, dquote, dquote])) l₀).all
                    (nestedAt (chunkEnv .plain [dquote, backslash, dquote, dquote])) = true ∧
                ∀ l ∈ Loop.heads (cparseHead (chunkEnv .plain [dquote, backslash, dquote, dquote]))
                  (fuel (chunkEnv .plain [dquote, backslash, dquote, dquote])) l₀,
                    l.state = .s5 → l.esc = true → l.t = 2)) = some true := by
    decide +kernel
  obtain ⟨R₁, hret₁, hcheck⟩ := Option.bind_eq_some_iff.mp hcheck
  obtain ⟨R₂, hret₂, hcheck⟩ := Option.map_eq_some_iff.mp hcheck
  obtain ⟨⟨hmode₁, hgood₁, hpos₁, hlen₁⟩, ⟨hgood₂, hpos₂, hend₂, hlen₂⟩, hall⟩ :=
    of_decide_eq_true hcheck
  have hmode₀ : (Pcont.new .plain).mode ≠ .eventsOnly := by decide
  obtain ⟨hnested₁, hpair₁⟩ := hall _ (List.mem_cons_self ..)
  obtain ⟨hnested₂, hpair₂⟩ := hall (R₁.cc.enter 0) (by simp)
  have hrun₁ := run_of_cparseSexp hmode₀ (of_returnOf hret₁)
  have hrun₂ := run_of_cparseSexp hmode₁ (of_returnOf hret₂)
  have hrun : ClientRun .plain [[[dquote, backslash], [dquote, dquote]].flatten] (Pcont.new .plain)
      .ok [R₁, R₂] := by
    apply ClientRun.again (nestedCall_of_checked hmode₀ (of_returnOf hret₁) hnested₁)
      (of_returnOf hret₁) hgood₁ hpos₁
    exact .next (nestedCall_of_checked hmode₁ (of_returnOf hret₂) hnested₂) (of_returnOf hret₂)
      hgood₂ hpos₂ hend₂ .done
  have hcut : ∀ m i, WholeHead .plain [[dquote, backslash], [dquote, dquote]].flatten
        ((Pcont.new .plain).enter 0) m →
      ClosesPair [[dquote, backslash], [dquote, dquote]].flatten m →
        m.t + 1 ≠
          ((([[dquote, backslash], [dquote, dquote]] : List (List Byte)).take i).flatten).length := by
    intro m i hm hpair
    obtain ⟨hs, c, -, hesc⟩ := hpair
    have hesc : m.esc = true := by
      rw [Bool.and_eq_true] at hesc
      exact hesc.1
    have ht : m.t = 2 := by
      cases hm with
      | here hreach => exact hpair₁ m (Loop.mem_heads_of_reaches hrun₁ hreach) hs hesc
      | again hfirst hgood hpos hrest =>
        obtain rfl := Stop.ret.inj (Loop.halts_unique ⟨_, hrun₁⟩ hfirst)
        cases hrest with
        | here hreach => exact hpair₂ m (Loop.mem_heads_of_reaches hrun₂ hreach) hs hesc
        | again hsecond hgood hpos hrest =>
          obtain rfl := Stop.ret.inj (Loop.halts_unique ⟨_, hrun₂⟩ hsecond)
          exact absurd hpos₂ hpos
    rw [ht]
    rcases i with _ | _ | i
    · simp
    · simp
    · simp
  obtain ⟨rs, hchunks, -, hsame⟩ := chunks_served (fun _ => rfl)
    (.start (initContinuation_of_succeeds fun _ => rfl)) rfl (List.cons_ne_nil _ _) hrun hcut
  refine ⟨rs, [R₁, R₂], ?_, hrun, hchunks, hsame⟩
  have hempty₂ := List.length_eq_zero_iff.mp hlen₂
  have hone₁ : R₁.cc.lastSexp.isEmpty = false := by
    rw [List.isEmpty_eq_false_iff]
    exact List.ne_nil_of_length_pos (by omega)
  simp [hempty₂, hone₁, chainsOf]

end Served

end Sfsexp.Proofs
