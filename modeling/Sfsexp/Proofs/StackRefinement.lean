import Mathlib.Data.Fintype.EquivFin
import Sfsexp.Proofs.Buffer
import Sfsexp.Proofs.Faststack

/-!
# The stack of the parser and the stack in memory

The stack that the parser works on lists the chains that the levels point to. It stands for a stack of
`faststack.c`: what a round does to the one are pushes and pops of the other, and assignments to the
chain that the top level points to. As `height` is an `int`, this holds of runs in which it stays two
levels below the largest one in front of every round.
-/

namespace Sfsexp.Proofs

open Sfsexp Spec

/-- What the parser does to its stack: a push that finds a level in reserve or gets one, a pop, or an
assignment to the chain of the top level. -/
inductive StackMove (f : Faststack) : Faststack → Prop where
  | push (granted : Bool) (data : List Sexp) (hfits : (f.height : Int) < intMax)
      (hdone : 0 < f.spare ∨ granted = true) :
      StackMove f ⟨data :: f.levels, f.spare - 1, f.height + 1⟩
  | pop {data : List Sexp} {f' : Faststack} (h : f.pop = some (data, f')) : StackMove f f'
  | assign {top : List Sexp} {rest : List (List Sexp)} (h : f.levels = top :: rest)
      (top' : List Sexp) : StackMove f { f with levels := top' :: rest }

/-- The stack in memory has the levels of `f`, each with a block of its own for its chain. -/
def Stands (f : Faststack) (s : StackHeap Nat) : Prop :=
  ∃ (t : LevelStack Nat) (chain : Nat → List Sexp), Carries s t ∧ t.content.Nodup ∧
    f.levels = t.content.reverse.map chain ∧ f.height = t.height ∧
    t.levels.length = f.levels.length + f.spare

/-- A run of `push` and `pop` leads to a stack that `f` stands for. -/
def Carried (f : Faststack) : Prop := ∃ past s, StackRun Fits past s ∧ Stands f s

section Moves

variable {f f' : Faststack} {data top : List Sexp} {rest : List (List Sexp)}

lemma carried_makeStack : Carried makeStack :=
  ⟨[], _, .start .ok, .empty, fun _ => [], carries_makeStack .ok, List.nodup_nil, rfl, rfl, rfl⟩

lemma map_update {chain : Nat → List Sexp} {a : Nat} {as : List Nat} (ha : a ∉ as) :
    as.map (Function.update chain a data) = as.map chain := by
  refine List.map_congr_left fun b hb => Function.update_of_ne ?_ _ _
  rintro rfl
  exact ha hb

/-- The block that is pushed is one that no level points to. -/
lemma carried_push {granted : Bool} (h : Carried f) (hfits : (f.height : Int) < intMax)
    (hdone : 0 < f.spare ∨ granted = true) :
    Carried ⟨data :: f.levels, f.spare - 1, f.height + 1⟩ := by
  obtain ⟨past, s, hrun, t, chain, hcarries, hnodup, hlevels, hheight, hlength⟩ := h
  obtain ⟨a, ha⟩ := Infinite.exists_notMem_finset t.content.toFinset
  rw [List.mem_toFinset] at ha
  have hcount : f.levels.length = t.height := by
    rw [hlevels, List.length_map, List.length_reverse, t.length_content]
  cases ht : t.push granted a with
  | none =>
    obtain ⟨hfull, hdenied⟩ := LevelStack.push_eq_none.mp ht
    rw [LevelStack.Full] at hfull
    rcases hdone with hspare | hgranted
    · omega
    · rw [hdenied] at hgranted
      cases hgranted
  | some t' =>
    obtain ⟨s', hcarries', hstep⟩ := step_push_done hcarries ht
    have hlt : s.height < intMax := by
      rw [hcarries.height, ← hheight]
      exact hfits
    rw [if_pos hlt] at hstep
    have hcontent := LevelStack.content_push ht
    have hlen := LevelStack.length_push ht
    have hnext : StackRun Fits ((.push granted a, .stack) :: past) s' :=
      .step hrun (Or.inl hlt) hstep
    refine ⟨_, s', hnext, t', Function.update chain a data, hcarries', ?_,
      ?_, ?_, ?_⟩
    · rw [hcontent]
      refine List.nodup_append.mpr ⟨hnodup, List.nodup_singleton a, ?_⟩
      rintro b hb c hc rfl
      exact ha (List.mem_singleton.mp hc ▸ hb)
    · rw [hcontent, List.reverse_concat, List.map_cons, Function.update_self,
        map_update (fun h => ha (List.mem_reverse.mp h)), hlevels]
    · rw [LevelStack.height_push ht, hheight]
    · rw [hlen, List.length_cons]
      dsimp only
      omega

lemma carried_pop (h : Carried f) (hpop : f.pop = some (data, f')) : Carried f' := by
  obtain ⟨past, s, hrun, t, chain, hcarries, hnodup, hlevels, hheight, hlength⟩ := h
  rw [Faststack.pop] at hpop
  cases ht : t.pop with
  | none =>
    have hempty := LevelStack.content_of_pop_none ht
    rw [hempty] at hlevels
    rw [hlevels] at hpop
    cases hpop
  | some popped =>
    obtain ⟨a, t'⟩ := popped
    obtain ⟨b, s', lvl, hstep, hcarries', -⟩ := step_pop_done hcarries ht
    have hcontent := LevelStack.content_pop ht
    obtain ⟨hheight', hkept⟩ := LevelStack.height_pop ht
    rw [hcontent, List.reverse_concat, List.map_cons] at hlevels
    rw [hheight, hheight', hlevels] at hpop
    cases hpop
    have hnext : StackRun Fits ((.pop, .level b) :: past) s' := .step hrun trivial hstep
    refine ⟨_, s', hnext, t', chain, hcarries', ?_, rfl, rfl, ?_⟩
    · rw [hcontent] at hnodup
      exact (List.nodup_append.mp hnodup).1
    · rw [hkept, hlength, hlevels, List.length_cons]
      dsimp only
      omega

/-- What the top level points to is changed, and no other level points there. -/
lemma carried_assign (h : Carried f) (htop : f.levels = top :: rest) (top' : List Sexp) :
    Carried { f with levels := top' :: rest } := by
  obtain ⟨past, s, hrun, t, chain, hcarries, hnodup, hlevels, hheight, hlength⟩ := h
  rw [htop] at hlevels hlength
  cases hblocks : t.content.reverse with
  | nil =>
    rw [hblocks] at hlevels
    cases hlevels
  | cons a as =>
    rw [hblocks, List.map_cons] at hlevels
    have hfresh : a ∉ as := by
      rw [← List.nodup_reverse, hblocks] at hnodup
      exact (List.nodup_cons.mp hnodup).1
    refine ⟨past, s, hrun, t, Function.update chain a top', hcarries, hnodup, ?_, hheight, ?_⟩
    · rw [hblocks, List.map_cons, Function.update_self, map_update hfresh]
      exact congrArg (top' :: ·) (List.cons.inj hlevels).2
    · exact hlength

lemma carried_move (h : Carried f) (hmove : StackMove f f') : Carried f' := by
  cases hmove with
  | push granted data hfits hdone => exact carried_push h hfits hdone
  | pop hpop => exact carried_pop h hpop
  | assign htop top' => exact carried_assign h htop top'

/-- The levels that are popped one after the other. -/
lemma carried_popAll {levels : List (List Sexp)} {spare height : Nat} {sx : List Sexp}
    (h : Carried ⟨levels, spare, height⟩)
    (hpop : popAll levels spare height sx = some (f', data)) : Carried f' := by
  induction levels generalizing spare height sx with
  | nil =>
    cases hpop
    exact h
  | cons T rest ih =>
    cases height with
    | zero => cases hpop
    | succ height =>
      have hpopped : (⟨T :: rest, spare, height + 1⟩ : Faststack).pop =
          some (T, ⟨rest, spare + 1, height⟩) := rfl
      exact ih (carried_pop h hpopped) hpop

end Moves

/-- The piece keeps a stack that stands for one in memory. -/
abbrev Stacks : Exec Locals → Prop :=
  Post (fun l => Carried l.stack) (fun r => Carried r.cc.stack) fun _ => True

section Rounds

variable {env : Env} {l : Locals} {c : Byte}

lemma stacks_writeCur (hl : Carried l.stack) : Stacks (writeCur c l) := by
  rw [writeCur]
  split_ifs
  · exact hl
  · trivial

lemma stacks_overwrite (hl : Carried l.stack) : Stacks (overwrite c l) := by
  rw [overwrite]
  split
  · trivial
  · split_ifs
    · exact hl
    · trivial

lemma stacks_need (hl : Carried l.stack) : Stacks (need env l) := by
  rw [need]
  split_ifs
  · exact hl
  · exact hl

lemma stacks_grow {keep : Bool} (hl : Carried l.stack) : Stacks (grow env keep l) := by
  rw [grow]
  split_ifs
  · exact hl
  · exact hl
  · exact hl
  · exact hl

lemma stacks_store (hl : Carried l.stack) : Stacks (store env c l) :=
  Post.bind (stacks_writeCur hl) fun _ hl' => stacks_grow hl'

lemma stacks_storeEsc (hl : Carried l.stack) : Stacks (storeEsc env c l) :=
  Post.bind (stacks_writeCur hl) fun _ hl' => stacks_grow hl'

lemma stacks_emit (aty : AtomT) (hl : Carried l.stack) : Stacks (emit env aty l) := by
  rw [emit, fire_eq]
  dsimp only
  split_ifs
  · exact hl
  · exact hl

lemma carried_link {l' : Locals} (h : link l = some l') (hl : Carried l.stack) :
    Carried l'.stack ∧ l'.stack.height = l.stack.height := by
  rw [link] at h
  split at h
  · cases h
  · rename_i top rest hlevels
    obtain rfl := Option.some.inj h
    exact ⟨carried_move hl (.assign hlevels _), rfl⟩

/-- The end of an atom. -/
lemma stacks_endAtom (aty : Locals → AtomT) (before done next : Locals → Locals)
    (hl : Carried l.stack) (hbefore : ∀ l : Locals, (before l).stack = l.stack)
    (hdone : ∀ l : Locals, (done l).stack = l.stack)
    (hnext : ∀ l : Locals, (next l).stack = l.stack) :
    Stacks (need env l >>= fun l => emit env (aty l) (before l) >>= fun l =>
      match link l with
      | none => .error ((done l).save .ok l.sx)
      | some l => .ok (next l)) := by
  refine Post.bind (stacks_need hl) fun l₁ hl₁ => ?_
  refine Post.bind (stacks_emit _ (by rwa [hbefore])) fun l₂ hl₂ => ?_
  cases hlink : link l₂ with
  | none =>
    change Carried (done l₂).stack
    rwa [hdone]
  | some l₃ =>
    change Carried (next l₃).stack
    rw [hnext]
    exact (carried_link hlink hl₂).1

lemma stacks_endBare (hl : Carried l.stack) : Stacks (endBare env c l) := by
  refine Post.bind (stacks_writeCur hl) fun l₁ hl₁ => ?_
  apply @stacks_endAtom env { l₁ with valUsed := l₁.valUsed + 1 } _ id
    (fun l => { l with squoted := false, state := .s1, esc := false }) (afterBare c) hl₁
  · exact fun l => rfl
  · exact fun l => rfl
  · intro l
    rw [afterBare]
    split_ifs
    · rfl
    · rfl
    · rfl

lemma stacks_endQuoted (hl : Carried l.stack) : Stacks (endQuoted env l) := by
  have hquote : Stacks (closingQuote env l) := by
    rw [closingQuote]
    split_ifs
    · exact stacks_store hl
    · exact hl
  refine Post.bind hquote fun l₁ hl₁ => Post.bind (stacks_writeCur hl₁) fun l₂ hl₂ => ?_
  exact @stacks_endAtom env { l₂ with valUsed := l₂.valUsed + 1 } _
    (fun l => { l with squoted := false })
    (fun l => { l with t := l.t + 1, squoted := false, esc := false, state := .s1 })
    (fun l => { l with t := l.t + 1 }) hl₂ (fun l => rfl) (fun l => rfl) fun l => rfl

lemma stacks_endQuotedList (hl : Carried l.stack) : Stacks (endQuotedList env l) := by
  refine Post.bind (stacks_writeCur hl) fun l₁ hl₁ => ?_
  exact stacks_endAtom _ id (fun l => { l with squoted := false, esc := false, state := .s1 }) id hl₁
    (fun l => rfl) (fun l => rfl) fun l => rfl

lemma stacks_state1 (hl : Carried l.stack) : Stacks (state1 env c l) := by
  rw [state1]
  split_ifs
  · exact hl
  · exact hl
  · rw [fire_eq]
    exact hl
  · exact hl
  · exact hl
  · exact hl
  · exact Post.bind (stacks_writeCur hl) fun l₁ hl₁ =>
      Post.bind (stacks_grow hl₁) fun l₂ hl₂ => hl₂

/-- `push` in front of a height that can be raised. -/
lemma carried_pushed (data : List Sexp) (hl : Carried l.stack) (hfits : (l.stack.height : Int) < intMax) :
    Carried (push env data l).stack ∧ (push env data l).stack.height ≤ l.stack.height + 1 := by
  rw [push]
  split_ifs with hspare hgranted
  · exact ⟨carried_move hl (.push true data hfits (.inl hspare)), Nat.le_refl _⟩
  · have hzero : l.stack.spare - 1 = 0 := by omega
    have hpush := carried_move hl (.push true data hfits (.inr rfl))
    rw [hzero] at hpush
    exact ⟨hpush, Nat.le_refl _⟩
  · exact ⟨hl, Nat.le_succ _⟩

/-- The open paren of a list at the bottom makes two levels. -/
lemma stacks_state2 (hl : Carried l.stack) (hfits : (l.stack.height : Int) + 2 ≤ intMax) :
    Stacks (state2 env l) := by
  have hneed : ∀ (l : Locals) (h : Nat), Carried l.stack → l.stack.height ≤ h →
      Post (fun l' => Carried l'.stack ∧ l'.stack.height ≤ h) (fun r => Carried r.cc.stack)
        (fun _ => True) (need env l) := by
    intro l h hl hh
    rw [need]
    split_ifs
    · exact ⟨hl, hh⟩
    · exact hl
  refine Post.bind (x := need env _) (hneed _ l.stack.height hl (Nat.le_refl _)) fun l₁ hl₁ => ?_
  refine Post.bind (x := attachList env _)
    (Q := fun l' => Carried l'.stack ∧ l'.stack.height ≤ l.stack.height + 1) ?_ fun l₂ hl₂ => ?_
  · rw [attachList]
    split_ifs
    · refine Post.bind (x := need env _) (hneed _ l.stack.height hl₁.1 hl₁.2) fun l₂ hl₂ => ?_
      obtain ⟨hpush, hheight⟩ := @carried_pushed env l₂ l₂.sx hl₂.1 (by omega)
      exact ⟨hpush, by omega⟩
    · split
      · rename_i l₂ hlink
        obtain ⟨hcarried, hheight⟩ := carried_link hlink hl₁.1
        exact ⟨hcarried, hheight ▸ Nat.le_succ_of_le hl₁.2⟩
      · trivial
  · refine Post.bind (x := need env _) (hneed _ _ hl₂.1 hl₂.2) fun l₃ hl₃ => ?_
    exact (@carried_pushed env l₃ [] hl₃.1 (by omega)).1

lemma stacks_returnTree (hl : Carried l.stack) : Stacks (.error (returnTree l)) := by
  rw [returnTree]
  split
  · trivial
  · rename_i stack sx hpop
    exact carried_popAll hl hpop

lemma stacks_state3 (hl : Carried l.stack) : Stacks (state3 l) := by
  have hclose : ∀ l : Locals, Carried l.stack → Stacks (closeLevel l) := by
    intro l hl
    rw [closeLevel]
    split
    · trivial
    · rename_i sx stack hpop
      have hpopped := carried_pop hl hpop
      split
      · exact hpopped
      · rename_i top rest hlevels
        split
        · trivial
        · exact carried_move hpopped (.assign hlevels _)
  rw [state3]
  split_ifs
  · exact hl
  · refine Post.bind (hclose _ hl) fun l₁ hl₁ => ?_
    rw [fire_eq]
    dsimp only
    split_ifs
    · exact stacks_returnTree hl₁
    · exact hl₁

lemma stacks_state4 (hl : Carried l.stack) : Stacks (state4 env c l) := by
  rw [state4]
  split_ifs
  · exact stacks_overwrite hl
  · exact Post.bind (stacks_storeEsc hl) fun l₁ hl₁ => hl₁
  · exact stacks_endBare hl

lemma stacks_state5Rest (hl : Carried l.stack) : Stacks (state5Rest env c l) := by
  rw [state5Rest]
  split_ifs
  · exact stacks_endQuoted hl
  · exact Post.bind (stacks_store hl) fun l₁ hl₁ => hl₁

lemma stacks_state5 (hl : Carried l.stack) : Stacks (state5 env c l) := by
  rw [state5]
  split_ifs
  · refine Post.bind (stacks_overwrite hl) fun l₁ hl₁ => ?_
    rw [Env.read]
    split
    · exact stacks_state5Rest hl₁
    · trivial
  · exact stacks_state5Rest hl

lemma stacks_state7 (hl : Carried l.stack) : Stacks (state7 env c l) := by
  rw [state7]
  split_ifs
  · exact Post.bind (x := store env dquote _) (stacks_store hl) fun l₁ hl₁ => hl₁
  · exact hl
  · exact hl

lemma stacks_state9 (hl : Carried l.stack) : Stacks (state9 env l) := by
  rw [state9]
  split_ifs
  · exact stacks_endQuotedList hl
  · exact hl

lemma stacks_state8 (hl : Carried l.stack) : Stacks (state8 env c l) := by
  have hcount : (countParen c l).stack = l.stack := by
    rw [countParen]
    split_ifs
    · rfl
    · rfl
    · rfl
    · rfl
    · rfl
  refine Post.bind (stacks_storeEsc (by rwa [hcount])) fun l₁ hl₁ => ?_
  dsimp only
  split_ifs
  · exact stacks_state9 hl₁
  · exact hl₁

lemma stacks_state10 (hl : Carried l.stack) : Stacks (state10 env c l) := by
  refine Post.bind (x := storeEsc env c _) ?_ fun l₁ hl₁ => hl₁
  split_ifs
  · exact stacks_storeEsc hl
  · exact stacks_storeEsc hl

lemma stacks_state12 (hl : Carried l.stack) : Stacks (state12 env c l) := by
  rw [state12]
  split_ifs
  · exact Post.bind (stacks_storeEsc hl) fun l₁ hl₁ => hl₁
  · exact hl

lemma stacks_state13 (hl : Carried l.stack) : Stacks (state13 env c l) := by
  rw [state13]
  split_ifs
  · exact Post.bind (stacks_storeEsc hl) fun l₁ hl₁ => hl₁
  · exact hl

lemma stacks_state14 (hl : Carried l.stack) : Stacks (state14 env c l) := by
  rw [state14]
  split_ifs
  · refine Post.bind (x := writeCur nul _) (stacks_writeCur hl) fun l₁ hl₁ => ?_
    dsimp only
    split_ifs
    · exact Post.bind (x := need env _) (stacks_need hl₁) fun l₂ hl₂ => hl₂
    · exact hl₁
  · exact Post.bind (stacks_storeEsc hl) fun l₁ hl₁ => hl₁

lemma stacks_readBlob (hl : Carried l.stack) : Stacks (readBlob env l) := by
  rw [readBlob]
  split_ifs
  · rw [Env.read]
    split
    · rw [ok_bind]
      split
      · trivial
      · split_ifs
        · exact hl
        · trivial
    · trivial
  · exact hl

lemma stacks_state15 (hl : Carried l.stack) : Stacks (state15 env l) := by
  refine Post.bind (stacks_readBlob hl) fun l₁ hl₁ => ?_
  split_ifs
  · refine Post.bind (stacks_need hl₁) fun l₂ hl₂ => ?_
    rw [fire_eq]
    dsimp only
    cases hlink : link _ with
    | none => exact hl₂
    | some l₃ => exact (carried_link hlink hl₂).1
  · exact hl₁

lemma stacks_finish (hl : Carried l.stack) : Stacks (.error (finish env l)) := by
  rw [finish]
  split_ifs
  · exact stacks_returnTree hl
  · split
    · trivial
    · exact hl

lemma stacks_switch (hl : Carried l.stack) (hfits : (l.stack.height : Int) + 2 ≤ intMax) :
    Stacks (switch env c l) := by
  rw [switch]
  cases l.state with
  | s1 => exact stacks_state1 hl
  | s2 => exact stacks_state2 hl hfits
  | s3 => exact stacks_state3 hl
  | s4 => exact stacks_state4 hl
  | s5 => exact stacks_state5 hl
  | s6 => exact hl
  | s7 => exact stacks_state7 hl
  | s8 => exact stacks_state8 hl
  | s9 => exact stacks_state9 hl
  | s10 => exact stacks_state10 hl
  | s11 => exact hl
  | s12 => exact stacks_state12 hl
  | s13 => exact stacks_state13 hl
  | s14 => exact stacks_state14 hl
  | s15 => exact stacks_state15 hl
  | unknown => exact hl

/-- A round moves the stack in memory along. -/
lemma stacks_cparseHead (hl : Carried l.stack) (hfits : (l.stack.height : Int) + 2 ≤ intMax) :
    Stacks (cparseHead env l) := by
  rw [cparseHead]
  split_ifs
  · exact stacks_finish hl
  · exact stacks_state15 hl
  · rw [Env.read]
    split
    · rw [ok_bind]
      split_ifs
      · exact stacks_finish hl
      · exact stacks_switch hl hfits
    · trivial

end Rounds

/-- A round of the parser that builds trees, in front of which `height` can be raised twice. -/
def ShallowRound (_ : Env) (l : Locals) : Prop :=
  l.mode ≠ .eventsOnly ∧ (l.stack.height : Int) + 2 ≤ intMax

lemma head_of_shallowRounds {cc : Pcont} {k : Call} {allocs : Nat} {l : Locals}
    (hrun : Loop.ReachesWhile (k.head cc) (ShallowRound k.env) (cc.enter allocs) l)
    (hlast : ShallowRound k.env l) : k.head cc = cparseHead k.env := by
  have hfirst : ShallowRound k.env (cc.enter allocs) := by
    rcases Relation.ReflTransGen.cases_head hrun with rfl | ⟨_, hstep, -⟩
    · exact hlast
    · exact hstep.1
  exact if_neg hfirst.1

lemma carried_reaches {k : Call} {l₀ l : Locals} (hl : Carried l₀.stack)
    (hrun : Loop.ReachesWhile (cparseHead k.env) (ShallowRound k.env) l₀ l) : Carried l.stack := by
  induction hrun with
  | refl => exact hl
  | tail _ hstep ih =>
    obtain ⟨hround, hnext⟩ := hstep
    have hstacks := @stacks_cparseHead k.env _ ih hround.2
    rw [hnext] at hstacks
    exact hstacks

/-- In every sequence of calls of the parser that builds trees, whichever requests are granted, the
stack of the continuation is a stack of `faststack.c` that was made by pushes and pops, as long as
the lists are not nested so deep that `height` leaves its range. -/
theorem parser_stack_carried {cc : Pcont} (h : Session ShallowRound cc) : Carried cc.stack := by
  induction h with
  | @start g _ _ h =>
    rw [(initContinuation_eq_new h).1]
    exact carried_makeStack
  | configure _ _ _ ih => exact ih
  | @call cc k allocs l r _ hrun hlast hret ih =>
    have hhead := head_of_shallowRounds hrun hlast
    rw [hhead] at hrun hret
    have hstacks := @stacks_cparseHead k.env l (carried_reaches ih hrun) hlast.2
    rw [hret] at hstacks
    exact hstacks

/-- So what `stack_refines_list` says of the stack in memory holds of it: its levels are one chain,
and `destroy_stack` frees each of them once. -/
theorem parser_stack_destroyed {cc : Pcont} (h : Session ShallowRound cc) :
    ∃ s : StackHeap Nat, s.height = cc.stack.height ∧
      s.destroyStack = .released ((List.range (cc.stack.levels.length + cc.stack.spare)).reverse.map
        .level ++ [.wrapper]) := by
  obtain ⟨past, s, hrun, t, chain, hcarries, -, -, hheight, hlength⟩ := parser_stack_carried h
  refine ⟨s, by rw [hcarries.height, hheight], ?_⟩
  rw [destroyStack_released hcarries, hcarries.made, hlength]

end Sfsexp.Proofs
