import Sfsexp.Proofs.PrintRequests

/-!
# `print_sexp_cstr` when memory runs out

The call reports that it got no copy of its first element or no stack. What fails later is not
reported: the string is lost, or the text is wrong, and the call returns as if nothing had happened.
-/

namespace Sfsexp.Proofs

open Sfsexp Spec

section Copy

variable {g : Setup} {x : Sexp}

/-- The copied text. -/
lemma copyText_sound {aty : AtomT} {val : List Byte} {valAllocated valUsed : Nat}
    (hx : SoundAtom (.value aty val valAllocated valUsed)) (h : Heap)
    (hgot : Granted g (copyAllocs (.value aty val valAllocated valUsed)) h.allocs) :
    ∃ val' h', copyElement g (.value aty val valAllocated valUsed) h =
        .ok (some (.value aty val' valAllocated valUsed), h') ∧
      h'.allocs = h.allocs + copyAllocs (.value aty val valAllocated valUsed) ∧
      SoundAtom (.value aty val' valAllocated valUsed) ∧ cstr val' = cstr val := by
  rw [copyAllocs] at hgot ⊢
  rcases hx with ⟨rfl, rfl, rfl⟩ | hsealed
  · rw [if_pos rfl, granted_one] at hgot
    refine ⟨[], h.next, ?_, rfl, .inl ⟨rfl, rfl, rfl⟩, rfl⟩
    simp [copyElement, copyText, hgot]
  · have hne : val ≠ [] := by
      obtain ⟨hlen, -, hend, -⟩ := hsealed
      rintro rfl
      simp at hlen
      omega
    rw [if_neg hne, granted_two] at hgot
    rw [if_neg hne]
    refine ⟨_, h.next.next, ?_, rfl, .inr (sealed_copied hsealed), ?_⟩
    · rw [copyElement, hgot.1, Bool.not_true, if_neg Bool.false_ne_true]
      exact copyText_ok hsealed hgot.2
    · exact cstr_copied hsealed.1 hsealed.2.1 hsealed.2.2.1 hsealed.2.2.2

/-- The copy of the head, as far as it matters to the printer. -/
lemma copySexp_sound (hx : Leaves SoundAtom x) (h : Heap) (hhead : ¬ HeadFails g [x] h.allocs) :
    ∃ y h', copySexp g [x.unlinked] h = .ok ([y], h') ∧ h'.allocs = h.allocs + ownAllocs x ∧
      Leaves SoundAtom (relink y x) ∧ (relink y x).tree = x.tree := by
  rw [HeadFails, not_or, not_not] at hhead
  obtain ⟨hblob, hgot⟩ := hhead
  cases x with
  | value aty val valAllocated valUsed =>
    obtain ⟨val', h', hrun, hallocs, hsound, htext⟩ := copyText_sound hx h hgot
    refine ⟨.value aty val' valAllocated valUsed, h', ?_, hallocs, hsound, ?_⟩
    · change copySexp g [.value aty val valAllocated valUsed] h = _
      rw [copySexp, hrun]
      rfl
    · exact congrArg (Tree.atom aty) htext
  | blob bindata binlength =>
    cases bindata with
    | none => exact absurd ⟨binlength, rfl⟩ hblob
    | some data =>
      have hlen : data.length = binlength := hx
      obtain ⟨hnode, hblock⟩ := granted_two.mp hgot
      have hrun : copyElement g (.blob (some data) binlength) h =
          .ok (some (.blob (some data) binlength), h.next.next) := by
        simp [copyElement, copyBlob, hnode, hblock, Heap.next, hlen,
          List.take_of_length_le (Nat.le_of_eq hlen)]
      refine ⟨.blob (some data) binlength, h.next.next, ?_, rfl, hx, rfl⟩
      change copySexp g [.blob (some data) binlength] h = _
      rw [copySexp, hrun]
      rfl
  | list elems =>
    have hnode : g.alloc h.allocs = true := granted_one.mp hgot
    refine ⟨.list [], h.next, ?_, rfl, hx, rfl⟩
    simp [Sexp.unlinked, copySexp, copyElement, hnode, Except.map]

lemma consistent_unlinked (hx : Leaves SoundAtom x) : Consistent x.unlinked := by
  cases x with
  | value aty val valAllocated valUsed => exact hx
  | blob bindata binlength =>
    rintro data rfl
    exact Nat.le_of_eq (Eq.symm hx)
  | list elems => exact trivial

lemma copySexp_failed (hx : Leaves SoundAtom x) (h : Heap) (hhead : HeadFails g [x] h.allocs) :
    ∃ h', copySexp g [x.unlinked] h = .ok ([], h') := by
  obtain ⟨o, h', hrun, hcopy⟩ := copyElement_copies (g := g) x.unlinked (consistent_unlinked hx) h
  have hunlinked : HeadFails g [x.unlinked] h.allocs := by
    cases x with
    | list elems =>
      refine .inr ?_
      rcases hhead with ⟨n, hblob⟩ | hdenied
      · cases hblob
      · exact hdenied
    | _ => exact hhead
  obtain rfl := hcopy.fails.mpr hunlinked
  exact ⟨h', by rw [copySexp, hrun]⟩

end Copy

section Call

variable {g : StringSetup} {s : Option CString} {used : List Byte} {x : Sexp} {ss : Nat}
  {errno : ErrCode} {p : Sfsexp.Printed} {out : Output}

/-- The caller's pointer is `NULL`, or it holds a string with `text`. -/
def HoldsText (s : Option CString) (text : List Byte) : Prop :=
  match s with
  | none => text = []
  | some t => Contains t text

/-- The call returns -1 and leaves the string alone, or it returns the length of a string that holds
`text`. -/
def Reports (s : Option CString) (text : List Byte) (p : Sfsexp.Printed) : Prop :=
  (p.retval = -1 ∧ p.str = s) ∨ ∃ t, p.str = some t ∧ p.retval = t.curlen ∧ Contains t text

/-- The string that the call prints to. -/
def firstOutput (g : StringSetup) (s : Option CString) (ss : Nat) (errno : ErrCode) : Output :=
  match s with
  | none => snew g ss ⟨0, errno⟩
  | some s => { allocs := 0, errno := errno, str := some s }

lemma firstOutput_allocs (g : StringSetup) (s : Option CString) (ss : Nat) (errno : ErrCode) :
    (firstOutput g s ss errno).allocs = copyAt g.toSetup s := by
  cases s with
  | some s => rfl
  | none =>
    rw [firstOutput, copyAt, snew]
    cases g.alloc 0 with
    | false => rfl
    | true =>
      dsimp only
      rw [Bool.not_true, if_neg Bool.false_ne_true, if_pos rfl]
      split_ifs <;> rfl

lemma firstOutput_filled (ss : Nat) (errno : ErrCode) (hs : HoldsText s used)
    (hgot : s = none → Granted g.toSetup 2 0) :
    HoldsIn (firstOutput g s ss errno) used (firstLen ss s) := by
  cases s with
  | some s => exact ⟨s, rfl, hs, rfl⟩
  | none =>
    obtain rfl : used = [] := hs
    obtain ⟨hfirst, hsecond⟩ := granted_two.mp (hgot rfl)
    have hblock : g.alloc (Heap.next ⟨0, errno⟩).allocs = true := hsecond
    rw [firstOutput, snew, hfirst, hblock]
    exact ⟨_, rfl, ⟨by simp, rfl, by simp, Nat.zero_le _, fun h => absurd rfl h⟩, rfl⟩

lemma firstOutput_none (hdenied : ¬ (s = none → Granted g.toSetup 2 0)) :
    (firstOutput g s ss errno).str = none := by
  rw [Classical.not_imp, granted_two] at hdenied
  obtain ⟨rfl, hdenied⟩ := hdenied
  rw [firstOutput, snew]
  by_cases hfirst : g.alloc 0 = true
  · have hblock : ¬ g.alloc (Heap.next ⟨0, errno⟩).allocs = true :=
      fun hsecond => hdenied ⟨hfirst, hsecond⟩
    simp [hfirst, hblock]
  · simp [hfirst]

/-- The locals at the first loop head. -/
def printStart (g : StringSetup) (out : Output) (h : Heap) (y : Sexp) : PrintLocals :=
  printPush g.toSetup [y] ⟨{ h.next with str := out.str }, makeStack, 0⟩

lemma printSexpCstr_uncopied {h : Heap}
    (hcopy : copySexp g.toSetup [x.unlinked] (firstOutput g s ss errno).toHeap = .ok ([], h))
    (n : Nat) (xs : List Sexp) :
    printSexpCstr g n s (x :: xs) ss errno = .ret ⟨-1, s, .memory⟩ := by
  cases s with
  | none =>
    change copySexp g.toSetup [x.unlinked] (snew g ss ⟨0, errno⟩).toHeap = _ at hcopy
    rw [printSexpCstr]
    dsimp only
    rw [hcopy]
  | some s =>
    change copySexp g.toSetup [x.unlinked] ⟨0, errno⟩ = _ at hcopy
    rw [printSexpCstr]
    dsimp only
    rw [hcopy]

lemma printSexpCstr_copied {y : Sexp} {h : Heap}
    (hcopy : copySexp g.toSetup [x.unlinked] (firstOutput g s ss errno).toHeap = .ok ([y], h))
    (n : Nat) (xs : List Sexp) :
    printSexpCstr g n s (x :: xs) ss errno =
      if g.alloc h.allocs = true then
        printFinish g (Loop.run (printHead g) n
          (printStart g (firstOutput g s ss errno) h (relink y x)))
      else .ret ⟨-1, s, .memory⟩ := by
  cases s with
  | none =>
    change copySexp g.toSetup [x.unlinked] (snew g ss ⟨0, errno⟩).toHeap = _ at hcopy
    rw [printSexpCstr]
    dsimp only
    rw [hcopy]
    dsimp only
    cases g.alloc h.allocs <;> rfl
  | some s =>
    change copySexp g.toSetup [x.unlinked] ⟨0, errno⟩ = _ at hcopy
    rw [printSexpCstr]
    dsimp only
    rw [hcopy]
    dsimp only
    cases g.alloc h.allocs <;> rfl

/-- What the call returns with the string of `out`. -/
def printed (o : Output) : Sfsexp.Printed :=
  ⟨match o.str with | none => 0 | some s => toInt s.curlen, o.str, o.errno⟩

lemma printFinish_ret {r : Option (Except Fault PrintLocals)} :
    printFinish g r = .ret p ↔
      ∃ l o, r = some (.ok l) ∧ closeParens g l.depth l.out = .ok o ∧ p = printed o := by
  constructor
  · intro h
    cases r with
    | none => cases h
    | some r =>
      cases r with
      | error f => cases h
      | ok l =>
        rw [printFinish] at h
        cases hclose : closeParens g l.depth l.out with
        | error f =>
          rw [hclose] at h
          cases h
        | ok o =>
          rw [hclose] at h
          cases h
          exact ⟨l, o, rfl, hclose, rfl⟩
  · rintro ⟨l, o, rfl, hclose, rfl⟩
    rw [printFinish, hclose]
    rfl

/-- The loop from `l` is left, and what is returned then reports `text`. -/
def LoopReports (g : StringSetup) (l : PrintLocals) (s : Option CString) (text : List Byte) : Prop :=
  ∃ n p, printFinish g (Loop.run (printHead g) n l) = .ret p ∧ Reports s text p

variable {l l₁ l' : PrintLocals} {text : List Byte}

lemma loopReports_of_exit (hreach : Loop.Reaches (printHead g) l l₁)
    (hexit : printHead g l₁ = .error (.ok l')) (hdepth : l'.depth = 0) :
    LoopReports g l s text ↔ Reports s text (printed l'.out) := by
  have hhalts := Loop.halts_of_reaches hreach (Loop.halts_of_exit hexit)
  have hclose : closeParens g l'.depth l'.out = .ok l'.out := by rw [hdepth, closeParens]
  constructor
  · rintro ⟨n, p, hfin, hp⟩
    obtain ⟨l₂, o, hrun, hclose₂, rfl⟩ := printFinish_ret.mp hfin
    have hsame := Loop.halts_unique hhalts ⟨n, hrun⟩
    cases hsame
    rw [hclose] at hclose₂
    cases hclose₂
    exact hp
  · intro hp
    obtain ⟨n, hrun⟩ := hhalts
    exact ⟨n, _, printFinish_ret.mpr ⟨l', l'.out, hrun, hclose, rfl⟩, hp⟩

lemma longer_closeParens (depth : Nat) {o o' : Output} (h : closeParens g depth o = .ok o') :
    Longer o o' depth := by
  induction depth generalizing o with
  | zero =>
    obtain rfl : o = o' := Except.ok.inj h
    exact @longer_appendAll g [] o o rfl
  | succ depth ih =>
    obtain ⟨o₁, hparen, hrest⟩ := steps_of_bind h
    rw [Nat.add_comm]
    exact (longer_append hparen).trans (ih hrest)

/-- A lost text is not reported. -/
lemma not_loopReports_of_lost (hreach : Loop.Reaches (printHead g) l l₁) (hl : Lost text.length l₁)
    (hs : ∀ t, s = some t → t.curlen ≤ text.length) : ¬ LoopReports g l s text := by
  rintro ⟨n, p, hfin, hp⟩
  obtain ⟨l₂, o, hrun, hclose, rfl⟩ := printFinish_ret.mp hfin
  obtain ⟨l₃, hreach₃, hexit⟩ := Loop.exit_of_halts
    (Loop.halts_of_halts_of_reaches hreach ⟨n, hrun⟩)
  have hlost : Lost text.length l₃ :=
    Loop.invariant_of_step (fun _ _ hinv hstep => weighs_step hinv.1 hinv.2 hstep) hl hreach₃
  obtain ⟨hlevels, hweighs⟩ := weighs_exit hlost.2 hexit
  have hlong := longer_closeParens _ hclose
  rw [Weighs, hlevels, leftover] at hweighs
  rcases hlong with hnone | ⟨t, t', ht, ht', hlen⟩
  · -- `NULL` is returned with 0
    rcases hp with ⟨hval, -⟩ | ⟨t, ht, -⟩
    · rw [printed, hnone] at hval
      cases hval
    · rw [printed, hnone] at ht
      cases ht
  · rcases hweighs with hnone | ⟨t₃, ht₃, hlen₃⟩
    · rw [ht] at hnone
      cases hnone
    rw [ht] at ht₃
    cases ht₃
    rcases hp with ⟨-, hstr⟩ | ⟨t₄, ht₄, -, hcontains⟩
    · have hshort := hs t' (hstr.symm.trans ht')
      omega
    · change o.str = some t₄ at ht₄
      rw [ht'] at ht₄
      cases ht₄
      have hcurlen := hcontains.curlen
      omega

variable {y : Sexp} {h : Heap} {len : Nat}

lemma printStart_level (halloc : g.alloc h.next.allocs = true) :
    printStart g out h y =
      printing { h.next.next with str := out.str } [[y]] 0 0 := by
  rw [printStart, printPush, if_neg (by exact Nat.lt_irrefl 0), if_pos (by exact halloc)]
  rfl

lemma printStart_noLevel (halloc : ¬ g.alloc h.next.allocs = true) :
    printStart g out h y = printing { h.next.fail with str := out.str } [] 0 0 := by
  rw [printStart, printPush, if_neg (by exact Nat.lt_irrefl 0), if_neg (by exact halloc)]
  rfl

/-- Without a string there is nothing to come. -/
lemma lost_printStart {n : Nat} (hy : Leaves SoundAtom y) (hnone : out.str = none) :
    Lost n (printStart g out h y) := by
  by_cases halloc : g.alloc h.next.allocs = true
  · rw [printStart_level halloc]
    refine ⟨?_, .inl hnone⟩
    intro level hlevel
    obtain rfl := List.mem_singleton.mp hlevel
    exact ⟨hy, trivial⟩
  · rw [printStart_noLevel halloc]
    exact ⟨fun _ hlevel => absurd hlevel List.not_mem_nil, .inl hnone⟩

/-- Without a level, or without bytes to print, the string stays as it was. -/
lemma idle_exit (hy : Leaves SoundAtom y)
    (hidle : y.tree.render = [] ∨ ¬ g.alloc h.next.allocs = true) :
    ∃ l₁ l', Loop.Reaches (printHead g) (printStart g out h y) l₁ ∧
      printHead g l₁ = .error (.ok l') ∧ l'.depth = 0 ∧ l'.out.str = out.str := by
  by_cases halloc : g.alloc h.next.allocs = true
  · have hblank := hidle.resolve_right (not_not.mpr halloc)
    have hlist : ∀ elems, y ≠ .list elems := by
      rintro elems rfl
      rw [Sexp.tree, Tree.render] at hblank
      cases hblank
    have hparts : parts y.tree = [] := by
      cases y with
      | value aty val valAllocated valUsed =>
        rw [Sexp.tree, Tree.render] at hblank
        rw [Sexp.tree, parts, hblank]
        rfl
      | blob bindata binlength =>
        rw [Sexp.tree, Tree.render] at hblank
        simp at hblank
      | list elems => exact absurd rfl (hlist elems)
    rw [printStart_level halloc]
    have hatom : printAtom g y { h.next.next with str := out.str } =
        .ok { h.next.next with str := out.str } := by
      rw [printAtom_parts (soundAtom_of_leaves hy hlist) hlist, hparts]
      rfl
    exact ⟨_, _, .single (printHead_atom_round hlist hatom rfl), printHead_last, rfl, rfl⟩
  · rw [printStart_noLevel halloc]
    exact ⟨_, _, .refl, rfl, rfl, rfl⟩

lemma toInt_eq_iff {n : Nat} : toInt n = n ↔ n < 2 ^ 31 := by
  constructor
  · intro h
    have hlt : toInt n < 2 ^ 31 := by
      have hbound := @Int.bmod_lt (n : Int) (2 ^ 32) (by decide)
      exact hbound
    omega
  · exact toInt_of_lt

/-- A string that is not the caller's any more is reported when its length is. -/
lemma reports_iff {o : Output} {t : CString} (ht : o.str = some t) (hcontains : Contains t text)
    (hnew : s ≠ some t) : Reports s text (printed o) ↔ text.length < 2 ^ 31 := by
  have hval : (printed o).retval = toInt text.length := by
    rw [printed, ht, ← hcontains.curlen]
  rw [Reports, hval, ← toInt_eq_iff]
  constructor
  · rintro (⟨-, hstr⟩ | ⟨t', ht', hlen, hcontains'⟩)
    · exact absurd (hstr.symm.trans ht) hnew
    · rwa [hcontains'.curlen] at hlen
  · intro hlen
    exact .inr ⟨t, ht, by rwa [hcontains.curlen], hcontains⟩

/-- With bytes to print and a level to start from, the call reports the text exactly when its loop
gets what it asks for. -/
lemma loopReports_busy (hy : Leaves SoundAtom y) (hfilled : HoldsIn out used len)
    (hkept : ∀ t, s = some t → t.curlen = used.length) (hbytes : y.tree.render ≠ [])
    (halloc : g.alloc h.next.allocs = true) :
    LoopReports g (printStart g out h y) s (used ++ y.tree.render) ↔
      Granted g.toSetup (growths g.growsize used.length len (parts y.tree) + levelsOf y.tree)
          h.next.next.allocs ∧
        used.length + y.tree.render.length < 2 ^ 31 := by
  have hpos := List.length_pos_iff.mpr hbytes
  have hat : At (used ++ y.tree.render).length used len [[y]] 0 0 (printStart g out h y) := by
    rw [printStart_level halloc]
    refine ⟨rfl, hfilled, ?_, ?_⟩
    · rintro level hlevel
      obtain rfl := List.mem_singleton.mp hlevel
      exact ⟨hy, trivial⟩
    · rw [leftover_atom, List.length_append]
      omega
  have hout := proceeds_element (g := g) y _ used len [] [] 0 0 _ hat
  have hsep : bytewise (separator ([] : List Sexp)) = [] := rfl
  have hrender : y.tree.render ++ separator ([] : List Sexp) = y.tree.render := List.append_nil _
  rw [hsep, hrender, List.append_nil, Nat.sub_zero, Proceeds] at hout
  have hallocs : (printStart g out h y).out.allocs = h.next.next.allocs := by
    rw [printStart_level halloc]
    rfl
  rw [hallocs] at hout
  rcases hout with ⟨hgot, l₁, hreach, -, hl₁⟩ | ⟨hdenied, l₁, hreach, hl₁⟩
  · obtain ⟨t, ht, hcontains, -⟩ := hl₁.filled
    have hexit : printHead g l₁ =
        .error (.ok (printing l₁.out [] (max 0 (levelsOf y.tree) + 1) 0)) := by
      rw [hl₁.shape]
      exact printHead_last
    have hnew : s ≠ some t := by
      intro hst
      have hlen := hkept t hst
      rw [hcontains.curlen, List.length_append] at hlen
      omega
    rw [loopReports_of_exit hreach hexit rfl, and_iff_right hgot, ← List.length_append]
    exact reports_iff ht hcontains hnew
  · apply iff_of_false
    · apply not_loopReports_of_lost hreach hl₁
      intro t ht
      rw [hkept t ht, List.length_append]
      omega
    · exact fun hall => hdenied hall.1

/-- Without, it reports the text when there was nothing to print, or its length by chance. -/
lemma loopReports_idle (hy : Leaves SoundAtom y) (hs : HoldsText s used)
    (hfilled : HoldsIn out used len) (hkept : ∀ t, s = some t → out.str = some t)
    (hidle : y.tree.render = [] ∨ ¬ g.alloc h.next.allocs = true) :
    LoopReports g (printStart g out h y) s (used ++ y.tree.render) ↔
      (y.tree.render = [] ∧ used.length < 2 ^ 31) ∨ toInt used.length = -1 := by
  obtain ⟨l₁, l', hreach, hexit, hdepth, hstr⟩ := @idle_exit g out y h hy hidle
  obtain ⟨t, ht, hcontains, rfl⟩ := hfilled
  rw [loopReports_of_exit hreach hexit hdepth, Reports]
  have hval : (printed l'.out).retval = toInt used.length := by
    rw [printed, hstr, ht, ← hcontains.curlen]
  have hlast : (printed l'.out).str = some t := hstr.trans ht
  rw [hval, hlast]
  constructor
  · rintro (⟨hneg, -⟩ | ⟨t', ht', hlen, hcontains'⟩)
    · exact .inr hneg
    · cases ht'
      have hcurlen := hcontains'.curlen
      rw [hcontains.curlen, List.length_append] at hcurlen
      rw [hcontains.curlen, toInt_eq_iff] at hlen
      exact .inl ⟨List.eq_nil_of_length_eq_zero (by omega), hlen⟩
  · rintro (⟨hblank, hlen⟩ | hneg)
    · refine .inr ⟨t, rfl, ?_, ?_⟩
      · rw [hcontains.curlen]
        exact toInt_of_lt hlen
      · rwa [hblank, List.append_nil]
    · left
      refine ⟨hneg, ?_⟩
      cases s with
      | some t₀ => exact ht.symm.trans (hkept t₀ rfl)
      | none =>
        obtain rfl : used = [] := hs
        cases hneg

/-- The call with what it starts from. -/
lemma prints_iff_loopReports
    (hcopy : copySexp g.toSetup [x.unlinked] (firstOutput g s ss errno).toHeap = .ok ([y], h))
    (halloc : g.alloc h.allocs = true) (xs : List Sexp) (text : List Byte) :
    (∃ n p, printSexpCstr g n s (x :: xs) ss errno = .ret p ∧ Reports s text p) ↔
      LoopReports g (printStart g (firstOutput g s ss errno) h (relink y x)) s text := by
  simp only [printSexpCstr_copied hcopy, if_pos halloc]
  rfl

/-- The call reports a failure or a complete text exactly when it gets no copy or no stack, or gets
everything that it asks for. -/
theorem print_cstr_reports (hx : Leaves SoundAtom x) (hs : HoldsText s used) (xs : List Sexp)
    (ss : Nat) (errno : ErrCode) :
    (∃ n p, printSexpCstr g n s (x :: xs) ss errno = .ret p ∧
        Reports s (used ++ x.tree.render) p) ↔
      GivesUp g.toSetup s x ∨ Finishes g s ss x used.length ∨
        (AppendsNothing g.toSetup s x ∧ toInt used.length = -1) := by
  have hallocs := firstOutput_allocs g s ss errno
  by_cases hhead : HeadFails g.toSetup [x] (copyAt g.toSetup s)
  · rw [← hallocs] at hhead
    obtain ⟨h, hcopy⟩ := copySexp_failed hx _ hhead
    rw [hallocs] at hhead
    apply iff_of_true
    · exact ⟨0, _, printSexpCstr_uncopied hcopy 0 xs, .inl ⟨rfl, rfl⟩⟩
    · exact .inl (.inl hhead)
  have hhead' := hhead
  rw [← hallocs] at hhead'
  obtain ⟨y, h, hcopy, hnext, hy, htree⟩ := copySexp_sound hx _ hhead'
  rw [hallocs] at hnext
  by_cases hstack : g.alloc h.allocs = true
  · have hgo : ¬ GivesUp g.toSetup s x := by
      rintro (hfails | hdenied)
      · exact hhead hfails
      · rw [← hnext] at hdenied
        exact hdenied hstack
    rw [or_iff_right hgo, prints_iff_loopReports hcopy hstack]
    have hbehind : h.next.allocs = copyAt g.toSetup s + ownAllocs x + 1 := congrArg (· + 1) hnext
    by_cases hstr : s = none → Granted g.toSetup 2 0
    · have hfilled := firstOutput_filled ss errno hs hstr
      by_cases hidle : AppendsNothing g.toSetup s x
      · have hidle' : (relink y x).tree.render = [] ∨ ¬ g.alloc h.next.allocs = true := by
          rwa [htree, hbehind]
        have hkept : ∀ t, s = some t → (firstOutput g s ss errno).str = some t := by
          rintro t rfl
          rfl
        rw [← htree, loopReports_idle hy hs hfilled hkept hidle', htree, and_iff_right hidle]
        apply or_congr_left
        constructor
        · rintro ⟨hblank, hlen⟩
          exact ⟨hstr, .inl hblank, by rwa [hblank]⟩
        · rintro ⟨-, hrequests, hlen⟩
          refine ⟨?_, by omega⟩
          rcases hrequests with hblank | hgot
          · exact hblank
          · rw [loopRequests, granted_add, granted_one] at hgot
            exact hidle.resolve_right (not_not.mpr hgot.1)
      · have hbusy := hidle
        rw [AppendsNothing, not_or, not_not] at hbusy
        obtain ⟨hbytes, hlevel⟩ := hbusy
        have hkept : ∀ t, s = some t → t.curlen = used.length := by
          rintro t rfl
          exact Contains.curlen hs
        have hnext₂ : h.next.next.allocs = copyAt g.toSetup s + ownAllocs x + 1 + 1 :=
          congrArg (· + 1) hbehind
        rw [← htree, loopReports_busy hy hfilled hkept (by rwa [htree]) (by rwa [hbehind]), htree,
          hnext₂, or_iff_left fun hchance => hidle hchance.1]
        constructor
        · rintro ⟨hgot, hlen⟩
          refine ⟨hstr, .inr ?_, hlen⟩
          rw [loopRequests, granted_add, granted_one]
          exact ⟨hlevel, hgot⟩
        · rintro ⟨-, hrequests, hlen⟩
          have hgot := hrequests.resolve_left hbytes
          rw [loopRequests, granted_add] at hgot
          exact ⟨hgot.2, hlen⟩
    · obtain rfl : s = none := (Classical.not_imp.mp hstr).1
      obtain rfl : used = [] := hs
      apply iff_of_false
      · apply not_loopReports_of_lost .refl (lost_printStart hy (firstOutput_none hstr))
        rintro t ht
        cases ht
      · rintro (hfin | ⟨-, hneg⟩)
        · exact hstr hfin.string
        · cases hneg
  · apply iff_of_true
    · refine ⟨0, ⟨-1, s, .memory⟩, ?_, .inl ⟨rfl, rfl⟩⟩
      rw [printSexpCstr_copied hcopy, if_neg hstack]
    · rw [hnext] at hstack
      exact .inl (.inr hstack)

end Call

section Examples

/-- The string `x` in a buffer without room for more. -/
def fullString : CString := ⟨[120, nul], 2, 1⟩

lemma contains_fullString : Contains fullString [120] :=
  ⟨rfl, rfl, rfl, by decide, fun _ => ⟨[], rfl⟩⟩

/-- The atom `a`. -/
def atomA : Sexp := .value .basic [97, nul] 2 2

lemma sound_atomA : Leaves SoundAtom atomA := by
  have htext : cstr [97, nul] = [97] := by decide
  refine .inr ⟨rfl, le_refl _, ?_, ?_⟩ <;> simp [htext]

/-- With memory for everything `a` is printed behind `x`. -/
theorem print_cstr_reports_atom :
    ∃ n p, printSexpCstr .plain n (some fullString) [atomA] 0 .ok = .ret p ∧
      Reports (some fullString) ([120] ++ atomA.tree.render) p := by
  have hs : HoldsText (some fullString) [120] := contains_fullString
  refine (print_cstr_reports sound_atomA hs [] 0 .ok).mpr (.inr (.inl ⟨?_, .inr ?_, ?_⟩))
  · rintro hnone
    cases hnone
  · exact granted_of_succeeds fun _ => rfl
  · decide

/-- When the string cannot grow, the caller's string is lost and 0 is returned. -/
theorem failed_growth_unreported : HoldsText (some fullString) [120] ∧ Leaves SoundAtom atomA ∧
    (∃ n, printSexpCstr { StringSetup.plain with alloc := fun n => n ≠ 4 } n (some fullString)
      [atomA] 0 .ok = .ret ⟨0, none, .memory⟩) ∧
    ¬ ∃ n p, printSexpCstr { StringSetup.plain with alloc := fun n => n ≠ 4 } n (some fullString)
        [atomA] 0 .ok = .ret p ∧ Reports (some fullString) ([120] ++ atomA.tree.render) p := by
  have hrun : printSexpCstr { StringSetup.plain with alloc := fun n => n ≠ 4 } 3 (some fullString)
      [atomA] 0 .ok = .ret ⟨0, none, .memory⟩ := by
    rfl
  refine ⟨contains_fullString, sound_atomA, ⟨3, hrun⟩, ?_⟩
  rintro ⟨n, p, hret, hp⟩
  have hsame := (printSexpCstr_mono (Nat.le_max_left n 3) hret).symm.trans
    (printSexpCstr_mono (Nat.le_max_right n 3) hrun)
  cases hsame
  rcases hp with ⟨hval, -⟩ | ⟨t, ht, -⟩
  · cases hval
  · cases ht

end Examples

end Sfsexp.Proofs
