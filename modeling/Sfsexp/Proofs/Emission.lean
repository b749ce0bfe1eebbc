import Sfsexp.Proofs.Callbacks

/-!
# What a round builds

Every atom on the stack, in a result or in a callback was built by a round that ended a token. Which
atoms a round can build is read off its state; no allocation has to succeed for that.
-/

namespace Sfsexp.Proofs

open Sfsexp

mutual
/-- `P` holds of every atom of the element. -/
def Leaves (P : Sexp → Prop) : Sexp → Prop
  | .value aty val valAllocated valUsed => P (.value aty val valAllocated valUsed)
  | .blob bindata binlength => P (.blob bindata binlength)
  | .list elems => LeavesAll P elems

def LeavesAll (P : Sexp → Prop) : List Sexp → Prop
  | [] => True
  | x :: xs => Leaves P x ∧ LeavesAll P xs
end

section Trees

variable {P : Sexp → Prop} {xs ys : List Sexp}

lemma leavesAll_append : LeavesAll P (xs ++ ys) ↔ LeavesAll P xs ∧ LeavesAll P ys := by
  induction xs with
  | nil => simp [LeavesAll]
  | cons x xs ih => simp only [List.cons_append, LeavesAll, ih, and_assoc]

lemma leavesAll_singleton {x : Sexp} : LeavesAll P [x] ↔ Leaves P x := by
  rw [LeavesAll, LeavesAll, and_true]

lemma leavesAll_setLast {top sx top' : List Sexp} (h : setLast top sx = some top')
    (htop : LeavesAll P top) (hsx : LeavesAll P sx) : LeavesAll P top' := by
  induction top generalizing top' with
  | nil => cases h
  | cons x rest ih =>
    cases rest with
    | nil =>
      cases x with
      | list elems =>
        cases h
        exact ⟨hsx, trivial⟩
      | _ =>
        cases h
        exact htop
    | cons y rest =>
      rw [setLast] at h
      · obtain ⟨rest', hrest, rfl⟩ := Option.map_eq_some_iff.mp h
        exact ⟨htop.1, ih hrest htop.2⟩

end Trees

/-- The atoms that the round at `l` can build, with the byte `c` at the cursor. -/
inductive Builds (env : Env) (c : Byte) (l : Locals) : Sexp → Prop where
  | bare (hs : l.state = .s4) (hlt : l.vcur < l.val.length) :
      Builds env c l (atomOf (bareType l) (terminated l))
  | quoted {l₁ l₂ : Locals} (hs : l.state = .s5)
      (hpair : l₁ = l ∨ ((l.esc && isEscapable c) = true ∧ overwrite c l = .ok l₁))
      (hquote : closingQuote env { l₁ with state := .s6 } = .ok l₂) (hlt : l₂.vcur < l₂.val.length) :
      Builds env c l (atomOf (quotedType l₂) (terminated l₂))
  | list {l₁ : Locals} (hs : l.state = .s8) (hesc : l.esc = false) (hc : c = rparen)
      (hstore : storeEsc env c { l with qdepth := l.qdepth - 1, state := .s9 } = .ok l₁)
      (hq : l₁.qdepth = 0) (hlt : l₁.vcur < l₁.val.length) :
      Builds env c l (atomOf .squote (terminatedList l₁))
  | listEnd (hs : l.state = .s9) (hq : l.qdepth = 0) (hlt : l.vcur < l.val.length) :
      Builds env c l (atomOf .squote (terminatedList l))
  | blob {l₁ : Locals} (hs : l.state = .s15) (hread : readBlob env l = .ok l₁)
      (hend : l₁.binread = l₁.binexpected) : Builds env c l (.blob l₁.bindata l₁.binread)

/-- `P` holds of the atoms on the levels and in `sx`, and `Q` of the callbacks. -/
structure Stocked (P : Sexp → Prop) (Q : Event → Prop) (levels : List (List Sexp))
    (sx : List Sexp) (events : List Event) : Prop where
  levels : ∀ T ∈ levels, LeavesAll P T
  sx : LeavesAll P sx
  events : ∀ e ∈ events, Q e

def StockedHead (P : Sexp → Prop) (Q : Event → Prop) (l : Locals) : Prop :=
  Stocked P Q l.stack.levels l.sx l.events

def StockedReturn (P : Sexp → Prop) (Q : Event → Prop) (r : Return) : Prop :=
  Stocked P Q r.cc.stack.levels r.cc.lastSexp r.events

abbrev Stocks (P : Sexp → Prop) (Q : Event → Prop) : Exec Locals → Prop :=
  Post (StockedHead P Q) (StockedReturn P Q) fun _ => True

/-- What a piece of a round hands on unchanged. -/
structure Unbuilt (l l' : Locals) : Prop where
  stack : l'.stack = l.stack
  sx : l'.sx = l.sx
  events : l'.events = l.events
  state : l'.state = l.state
  qdepth : l'.qdepth = l.qdepth

/-- A piece of a round that builds nothing; it returns without a result. -/
abbrev BuildsNone (P : Sexp → Prop) (Q : Event → Prop) (l : Locals) : Exec Locals → Prop :=
  Post (Unbuilt l) (StockedReturn P Q) fun _ => True

section Pieces

variable {P : Sexp → Prop} {Q : Event → Prop} {env : Env} {l l' l'' : Locals} {c : Byte}

lemma Unbuilt.trans (h : Unbuilt l l') (h' : Unbuilt l' l'') : Unbuilt l l'' :=
  ⟨h'.stack.trans h.stack, h'.sx.trans h.sx, h'.events.trans h.events, h'.state.trans h.state,
    h'.qdepth.trans h.qdepth⟩

lemma StockedHead.same (hi : StockedHead P Q l) (hstack : l'.stack = l.stack) (hsx : l'.sx = l.sx)
    (hevents : l'.events = l.events) : StockedHead P Q l' := by
  rw [StockedHead, hstack, hsx, hevents]
  exact hi

lemma StockedHead.unbuilt (hi : StockedHead P Q l) (h : Unbuilt l l') : StockedHead P Q l' :=
  hi.same h.stack h.sx h.events

/-- A return without a tree. -/
lemma StockedHead.save (hi : StockedHead P Q l) (err : ErrCode) :
    Stocks P Q (.error (l.save err [])) := ⟨hi.levels, trivial, hi.events⟩

lemma buildsNone_writeCur : BuildsNone P Q l (writeCur c l) := by
  rw [writeCur]
  split_ifs
  · exact ⟨rfl, rfl, rfl, rfl, rfl⟩
  · trivial

lemma buildsNone_overwrite : BuildsNone P Q l (overwrite c l) := by
  rw [overwrite]
  split
  · trivial
  · split_ifs
    · exact ⟨rfl, rfl, rfl, rfl, rfl⟩
    · trivial

lemma buildsNone_need (hi : StockedHead P Q l) : BuildsNone P Q l (need env l) := by
  rw [need]
  split_ifs
  · exact ⟨rfl, rfl, rfl, rfl, rfl⟩
  · exact ⟨hi.levels, trivial, hi.events⟩

lemma buildsNone_grow (hi : StockedHead P Q l) {keep : Bool} :
    BuildsNone P Q l (grow env keep l) := by
  rw [grow]
  split_ifs
  · exact ⟨rfl, rfl, rfl, rfl, rfl⟩
  · exact ⟨hi.levels, trivial, hi.events⟩
  · exact ⟨hi.levels, trivial, hi.events⟩
  · exact ⟨rfl, rfl, rfl, rfl, rfl⟩

lemma buildsNone_store (hi : StockedHead P Q l) : BuildsNone P Q l (store env c l) := by
  refine Post.bind buildsNone_writeCur ?_
  intro l₁ h₁
  refine Post.mono (buildsNone_grow ?_) ?_ fun _ h => h
  · exact hi.same h₁.stack h₁.sx h₁.events
  · intro l₂ h₂
    exact h₁.trans ⟨h₂.stack, h₂.sx, h₂.events, h₂.state, h₂.qdepth⟩

lemma buildsNone_storeEsc (hi : StockedHead P Q l) : BuildsNone P Q l (storeEsc env c l) := by
  refine Post.bind buildsNone_writeCur ?_
  intro l₁ h₁
  refine Post.mono (buildsNone_grow ?_) ?_ fun _ h => h
  · exact hi.same h₁.stack h₁.sx h₁.events
  · intro l₂ h₂
    exact h₁.trans ⟨h₂.stack, h₂.sx, h₂.events, h₂.state, h₂.qdepth⟩

lemma buildsNone_closingQuote (hi : StockedHead P Q l) :
    BuildsNone P Q l (closingQuote env l) := by
  rw [closingQuote]
  split_ifs
  · exact buildsNone_store hi
  · exact ⟨rfl, rfl, rfl, rfl, rfl⟩

/-- A callback with a property that a handler may be called with. -/
lemma stocked_fire {handler : Handlers → Bool} {e : Event} (hi : StockedHead P Q l) (he : Q e) :
    StockedHead P Q (fire handler e l) := by
  rw [fire_eq]
  refine ⟨hi.levels, hi.sx, ?_⟩
  intro e' hmem
  rcases List.mem_append.mp hmem with h | h
  · exact hi.events e' h
  · have heq : e' = e := by
      unfold heard at h
      split at h
      · split_ifs at h
        · exact List.mem_singleton.mp h
        · cases h
      · cases h
    rw [heq]
    exact he

/-- The end of a token: the atom in the buffer is built and reported. -/
lemma stocks_emit {aty : AtomT} (hi : StockedHead P Q l) (hP : P (atomOf aty l))
    (hQ : ∀ e ∈ preorder (atomOf aty l), Q e) : Stocks P Q (emit env aty l) := by
  have hfire : StockedHead P Q (fire (·.characters)
      (.characters (l.val.take l.valUsed) l.valUsed aty)
      { l with elts := l.elts + 1, sx := [.value aty l.val l.valAllocated l.valUsed] }) := by
    apply stocked_fire
    · exact ⟨hi.levels, leavesAll_singleton.mpr hP, hi.events⟩
    · apply hQ
      simp [atomOf, preorder]
  rw [emit]
  split_ifs
  · exact hfire
  · exact ⟨hfire.levels, trivial, hfire.events⟩

lemma stocked_link (hi : StockedHead P Q l) (h : link l = some l') : StockedHead P Q l' := by
  obtain ⟨hlevels, hsx, hevents⟩ := hi
  rw [link] at h
  cases hl : l.stack.levels with
  | nil =>
    rw [hl] at h
    cases h
  | cons top rest =>
    rw [hl] at h hlevels
    cases h
    obtain ⟨htop, hrest⟩ := List.forall_mem_cons.mp hlevels
    exact ⟨List.forall_mem_cons.mpr ⟨leavesAll_append.mpr ⟨htop, hsx⟩, hrest⟩, hsx, hevents⟩

lemma stocked_push {data : List Sexp} (hi : StockedHead P Q l) (hdata : LeavesAll P data) :
    StockedHead P Q (push env data l) := by
  have hlevels : ∀ T ∈ data :: l.stack.levels, LeavesAll P T :=
    List.forall_mem_cons.mpr ⟨hdata, hi.levels⟩
  rw [push]
  split_ifs
  · exact ⟨hlevels, hi.sx, hi.events⟩
  · exact ⟨hlevels, hi.sx, hi.events⟩
  · exact ⟨hi.levels, hi.sx, hi.events⟩

end Pieces

section Round

variable {P : Sexp → Prop} {Q : Event → Prop} {env : Env} {l : Locals} {c : Byte}

lemma stocks_state1 (hQ : Q .startSexpr) (hi : StockedHead P Q l) :
    Stocks P Q (state1 env c l) := by
  rw [state1]
  split_ifs
  · exact hi
  · exact hi
  · refine stocked_fire ?_ hQ
    exact hi
  · exact hi
  · exact hi
  · exact hi
  · refine Post.bind (buildsNone_writeCur (l := { l with vcur := 0 })) ?_
    intro l₁ h₁
    have hi₁ : StockedHead P Q l₁ := hi.same h₁.stack h₁.sx h₁.events
    refine Post.bind (buildsNone_grow ?_) ?_
    · exact hi₁
    · intro l₂ h₂
      exact hi₁.same h₂.stack h₂.sx h₂.events

lemma stocks_state2 (hi : StockedHead P Q l) : Stocks P Q (state2 env l) := by
  rw [state2]
  refine Post.bind (buildsNone_need (l := { l with depth := l.depth + 1 }) hi) ?_
  intro l₁ h₁
  have hi₁ : StockedHead P Q { l₁ with elts := l₁.elts + 1, sx := [.list []] } := by
    have hkept := hi.same h₁.stack h₁.sx h₁.events
    exact ⟨hkept.levels, ⟨trivial, trivial⟩, hkept.events⟩
  have hattach : Stocks P Q (attachList env { l₁ with elts := l₁.elts + 1, sx := [.list []] }) := by
    rw [attachList]
    split_ifs
    · refine Post.bind (buildsNone_need hi₁) ?_
      intro l₂ h₂
      have hi₂ := hi₁.unbuilt h₂
      exact stocked_push hi₂ hi₂.sx
    · cases hlink : link { l₁ with elts := l₁.elts + 1, sx := [.list []] } with
      | none => trivial
      | some l₂ => exact stocked_link hi₁ hlink
  refine Post.bind hattach ?_
  intro l₂ hi₂
  refine Post.bind (buildsNone_need hi₂) ?_
  intro l₃ h₃
  have hi₃ : StockedHead P Q (push env [] l₃) := stocked_push (hi₂.unbuilt h₃) trivial
  exact hi₃.same rfl rfl rfl

lemma leavesAll_popAll {levels : List (List Sexp)} {spare height : Nat} {sx sx' : List Sexp}
    {s : Faststack} (h : popAll levels spare height sx = some (s, sx'))
    (hlevels : ∀ T ∈ levels, LeavesAll P T) (hsx : LeavesAll P sx) :
    s.levels = [] ∧ LeavesAll P sx' := by
  induction levels generalizing spare height sx with
  | nil =>
    rw [popAll] at h
    cases h
    exact ⟨rfl, hsx⟩
  | cons data rest ih =>
    cases height with
    | zero => cases h
    | succ height =>
      obtain ⟨hdata, hrest⟩ := List.forall_mem_cons.mp hlevels
      exact ih h hrest hdata

lemma stocks_returnTree (hi : StockedHead P Q l) : Stocks P Q (.error (returnTree l)) := by
  rw [returnTree]
  cases hpop : popAll l.stack.levels l.stack.spare l.stack.height l.sx with
  | none => trivial
  | some popped =>
    obtain ⟨s, sx⟩ := popped
    obtain ⟨hempty, hsx⟩ := leavesAll_popAll hpop hi.levels hi.sx
    refine ⟨?_, hsx, hi.events⟩
    intro T hT
    dsimp only [Locals.save] at hT
    rw [hempty] at hT
    cases hT

lemma stocks_closeLevel (hi : StockedHead P Q l) : Stocks P Q (closeLevel l) := by
  rw [closeLevel, Faststack.pop]
  cases hlevels : l.stack.levels with
  | nil => trivial
  | cons sx below =>
    cases l.stack.height with
    | zero => trivial
    | succ height =>
      have hall := hi.levels
      rw [hlevels] at hall
      obtain ⟨hsx, hbelow⟩ := List.forall_mem_cons.mp hall
      cases below with
      | nil =>
        refine ⟨?_, trivial, hi.events⟩
        intro T hT
        cases hT
      | cons top rest =>
        obtain ⟨htop, hrest⟩ := List.forall_mem_cons.mp hbelow
        dsimp only
        cases hset : setLast top sx with
        | none => trivial
        | some top' =>
          exact ⟨List.forall_mem_cons.mpr ⟨leavesAll_setLast hset htop hsx, hrest⟩, hsx, hi.events⟩

lemma stocks_state3 (hQ : Q .endSexpr) (hi : StockedHead P Q l) : Stocks P Q (state3 l) := by
  rw [state3]
  split_ifs
  · exact ⟨hi.levels, trivial, hi.events⟩
  · refine Post.bind (stocks_closeLevel (l := { l with t := l.t + 1, depth := l.depth - 1 }) hi) ?_
    intro l₁ hi₁
    have hfire : StockedHead P Q (fire (·.endSexpr) .endSexpr { l₁ with state := .s1 }) := by
      refine stocked_fire ?_ hQ
      exact hi₁
    dsimp only
    split_ifs
    · exact stocks_returnTree hfire
    · exact hfire

/-- What the atoms that the round at `l` builds are known to be. -/
def BuildsOnly (P : Sexp → Prop) (Q : Event → Prop) (env : Env) (c : Byte) (l : Locals) : Prop :=
  ∀ x, Builds env c l x → P x ∧ ∀ e ∈ preorder x, Q e

lemma stocks_endBare (hi : StockedHead P Q l) (hs : l.state = .s4) (hb : BuildsOnly P Q env c l) :
    Stocks P Q (endBare env c l) := by
  by_cases hlt : l.vcur < l.val.length
  · obtain ⟨hP, hQ⟩ := hb _ (.bare hs hlt)
    rw [endBare, writeCur_ok hlt, ok_bind]
    by_cases halloc : env.alloc l.allocs = true
    · rw [need, if_pos halloc, ok_bind]
      have hatom : Stocks P Q (emit env (bareType l) (terminated l)) :=
        stocks_emit (hi.same rfl rfl rfl) hP hQ
      refine Post.bind hatom ?_
      intro l₁ hi₁
      cases hlink : link l₁ with
      | none => exact hi₁
      | some l₂ =>
        have hi₂ := stocked_link hi₁ hlink
        dsimp only
        rw [afterBare]
        split_ifs <;> exact hi₂
    · rw [need, if_neg halloc]
      exact ⟨hi.levels, trivial, hi.events⟩
  · rw [endBare, writeCur, if_neg hlt]
    trivial

lemma stocks_state4 (hi : StockedHead P Q l) (hs : l.state = .s4) (hb : BuildsOnly P Q env c l) :
    Stocks P Q (state4 env c l) := by
  rw [state4]
  split_ifs
  · exact Post.mono buildsNone_overwrite (fun _ h => hi.unbuilt h) fun _ h => h
  · refine Post.bind (buildsNone_storeEsc hi) ?_
    intro l₁ h₁
    exact (hi.unbuilt h₁).same rfl rfl rfl
  · exact stocks_endBare hi hs hb

/-- State 5 from the locals `l₁`, behind a pending escape, with the byte `c'` at the cursor. -/
lemma stocks_state5Rest {l₁ : Locals} {c' : Byte} (hi : StockedHead P Q l₁) (hs : l.state = .s5)
    (hpair : l₁ = l ∨ ((l.esc && isEscapable c) = true ∧ overwrite c l = .ok l₁))
    (hb : BuildsOnly P Q env c l) : Stocks P Q (state5Rest env c' l₁) := by
  rw [state5Rest]
  split_ifs
  · have hi₁ : StockedHead P Q { l₁ with state := .s6 } := hi.same rfl rfl rfl
    have hquiet := @buildsNone_closingQuote P Q env _ hi₁
    rw [endQuoted]
    cases hquote : closingQuote env { l₁ with state := .s6 } with
    | error stop =>
      rw [hquote] at hquiet
      cases stop with
      | ret r => exact hquiet
      | fault f => trivial
    | ok l₂ =>
      rw [hquote] at hquiet
      have hi₂ : StockedHead P Q l₂ := hi₁.unbuilt hquiet
      rw [ok_bind]
      by_cases hlt : l₂.vcur < l₂.val.length
      · obtain ⟨hP, hQ⟩ := hb _ (.quoted hs hpair hquote hlt)
        rw [writeCur_ok hlt, ok_bind]
        by_cases halloc : env.alloc l₂.allocs = true
        · rw [need, if_pos halloc, ok_bind]
          have hatom : Stocks P Q (emit env (quotedType l₂) { terminated l₂ with squoted := false }) :=
            stocks_emit (hi₂.same rfl rfl rfl) hP hQ
          refine Post.bind hatom ?_
          intro l₃ hi₃
          cases hlink : link l₃ with
          | none => exact hi₃
          | some l₄ =>
            have hi₄ := stocked_link hi₃ hlink
            exact hi₄
        · rw [need, if_neg halloc]
          exact ⟨hi₂.levels, trivial, hi₂.events⟩
      · rw [writeCur, if_neg hlt]
        trivial
  · refine Post.bind (buildsNone_store hi) ?_
    intro l₂ h₂
    exact (hi.unbuilt h₂).same rfl rfl rfl

lemma stocks_state5 (hi : StockedHead P Q l) (hs : l.state = .s5) (hb : BuildsOnly P Q env c l) :
    Stocks P Q (state5 env c l) := by
  rw [state5]
  split_ifs with he
  · have hquiet := @buildsNone_overwrite P Q l c
    cases hpair : overwrite c l with
    | error stop =>
      rw [hpair] at hquiet
      cases stop with
      | ret r => exact hquiet
      | fault f => trivial
    | ok l₁ =>
      rw [hpair] at hquiet
      rw [ok_bind, Env.read]
      split
      · exact stocks_state5Rest (hi.unbuilt hquiet) hs (.inr ⟨he, hpair⟩) hb
      · trivial
  · exact stocks_state5Rest hi hs (.inl rfl) hb

lemma stocks_state7 (hi : StockedHead P Q l) : Stocks P Q (state7 env c l) := by
  rw [state7]
  split_ifs
  · refine Post.bind (buildsNone_store (hi.same rfl rfl rfl)) ?_
    intro l₁ h₁
    exact hi.same h₁.stack h₁.sx h₁.events
  · exact hi
  · exact hi

lemma stocks_endQuotedList (hi : StockedHead P Q l)
    (hb : l.vcur < l.val.length → P (atomOf .squote (terminatedList l)) ∧
      ∀ e ∈ preorder (atomOf .squote (terminatedList l)), Q e) :
    Stocks P Q (endQuotedList env l) := by
  by_cases hlt : l.vcur < l.val.length
  · obtain ⟨hP, hQ⟩ := hb hlt
    rw [endQuotedList, writeCur_ok hlt, ok_bind]
    by_cases halloc : env.alloc l.allocs = true
    · rw [need, if_pos halloc, ok_bind]
      have hatom : Stocks P Q (emit env .squote (terminatedList l)) :=
        stocks_emit (hi.same rfl rfl rfl) hP hQ
      refine Post.bind hatom ?_
      intro l₁ hi₁
      cases hlink : link l₁ with
      | none => exact hi₁
      | some l₂ => exact stocked_link hi₁ hlink
    · rw [need, if_neg halloc]
      exact ⟨hi.levels, trivial, hi.events⟩
  · rw [endQuotedList, writeCur, if_neg hlt]
    trivial

lemma stocks_state9 (hi : StockedHead P Q l)
    (hb : l.qdepth = 0 → l.vcur < l.val.length → P (atomOf .squote (terminatedList l)) ∧
      ∀ e ∈ preorder (atomOf .squote (terminatedList l)), Q e) : Stocks P Q (state9 env l) := by
  rw [state9]
  split_ifs with hq
  · exact stocks_endQuotedList hi (hb hq)
  · exact hi

/-- State 8 goes on with state 9 only behind a closing paren that is not escaped. -/
lemma countParen_s9 (hs : l.state = .s8) (h9 : (countParen c l).state = .s9) :
    l.esc = false ∧ c = rparen ∧ countParen c l = { l with qdepth := l.qdepth - 1, state := .s9 } := by
  rw [countParen] at h9 ⊢
  split_ifs at h9 ⊢ with h1 h2 h3 h4
  · simp [hs] at h9
  · simp [hs] at h9
  · exact ⟨by simpa using h1, h3, rfl⟩
  · simp [hs] at h9

lemma stocks_state8 (hi : StockedHead P Q l) (hs : l.state = .s8) (hb : BuildsOnly P Q env c l) :
    Stocks P Q (state8 env c l) := by
  have hcount : StockedHead P Q (countParen c l) := by
    rw [countParen]
    split_ifs <;> exact hi
  have hquiet := @buildsNone_storeEsc P Q env _ c hcount
  rw [state8]
  cases hstore : storeEsc env c (countParen c l) with
  | error stop =>
    rw [hstore] at hquiet
    cases stop with
    | ret r => exact hquiet
    | fault f => trivial
  | ok l₁ =>
    rw [hstore] at hquiet
    have hi₁ : StockedHead P Q { l₁ with t := l₁.t + 1 } := hcount.same hquiet.stack hquiet.sx
      hquiet.events
    rw [ok_bind]
    dsimp only
    split_ifs with h9
    · obtain ⟨hesc, hc, heq⟩ := countParen_s9 hs (hquiet.state.symm.trans h9)
      rw [heq] at hstore
      apply stocks_state9 hi₁
      intro hq hlt
      exact hb (atomOf .squote (terminatedList l₁)) (.list hs hesc hc hstore hq hlt)
    · exact hi₁

lemma stocks_stored {f : Locals → Locals} {l₁ : Locals} (hi : StockedHead P Q l₁)
    (hf : ∀ m, (f m).stack = m.stack ∧ (f m).sx = m.sx ∧ (f m).events = m.events) :
    Stocks P Q (storeEsc env c l₁ >>= fun l => .ok (f l)) := by
  refine Post.bind (buildsNone_storeEsc hi) ?_
  intro l₂ h₂
  obtain ⟨hstack, hsx, hevents⟩ := hf l₂
  exact (hi.unbuilt h₂).same hstack hsx hevents

lemma stocks_state10 (hi : StockedHead P Q l) : Stocks P Q (state10 env c l) := by
  rw [state10]
  apply stocks_stored
  · split_ifs <;> exact hi
  · intro m
    exact ⟨rfl, rfl, rfl⟩

lemma stocks_state12 (hi : StockedHead P Q l) : Stocks P Q (state12 env c l) := by
  rw [state12]
  split_ifs
  · apply stocks_stored hi
    intro m
    exact ⟨rfl, rfl, rfl⟩
  · exact hi

lemma stocks_state13 (hi : StockedHead P Q l) : Stocks P Q (state13 env c l) := by
  rw [state13]
  split_ifs
  · apply stocks_stored hi
    intro m
    exact ⟨rfl, rfl, rfl⟩
  · exact hi

lemma stocks_state14 (hi : StockedHead P Q l) : Stocks P Q (state14 env c l) := by
  rw [state14]
  split_ifs
  · rw [endSize]
    refine Post.bind (buildsNone_writeCur (l := { l with t := l.t + 1, state := .s15 })) ?_
    intro l₁ h₁
    have hi₁ : StockedHead P Q l₁ := hi.same h₁.stack h₁.sx h₁.events
    dsimp only
    split_ifs
    · refine Post.bind (buildsNone_need (hi₁.same rfl rfl rfl)) ?_
      intro l₂ h₂
      exact hi₁.same h₂.stack h₂.sx h₂.events
    · exact hi₁
  · apply stocks_stored hi
    intro m
    exact ⟨rfl, rfl, rfl⟩

lemma buildsNone_readBlob : BuildsNone P Q l (readBlob env l) := by
  rw [readBlob]
  split_ifs
  · rw [Env.read]
    split
    · rw [ok_bind]
      split
      · trivial
      · split_ifs
        · exact ⟨rfl, rfl, rfl, rfl, rfl⟩
        · trivial
    · trivial
  · exact ⟨rfl, rfl, rfl, rfl, rfl⟩

lemma stocks_endBlob (hi : StockedHead P Q l) (hP : P (.blob l.bindata l.binread))
    (hQ : ∀ e ∈ preorder (.blob l.bindata l.binread), Q e) : Stocks P Q (endBlob env l) := by
  rw [endBlob]
  refine Post.bind (x := need env l) (Q := fun m => StockedHead P Q m ∧ m.bindata = l.bindata ∧
    m.binread = l.binread) ?_ ?_
  · rw [need]
    split_ifs
    · exact ⟨hi, rfl, rfl⟩
    · exact ⟨hi.levels, trivial, hi.events⟩
  · rintro l₁ ⟨hi₁, hdata, hread⟩
    have hfire : StockedHead P Q (fire (·.binary) (.binary (l₁.bindata.getD []) l₁.binread)
        { l₁ with elts := l₁.elts + 1, sx := [.blob l₁.bindata l₁.binread] }) := by
      apply stocked_fire
      · refine ⟨hi₁.levels, leavesAll_singleton.mpr ?_, hi₁.events⟩
        rw [hdata, hread]
        exact hP
      · apply hQ
        simp [preorder, hdata, hread]
    dsimp only
    rcases Option.eq_none_or_eq_some (link { fire (·.binary)
        (.binary (l₁.bindata.getD []) l₁.binread)
        { l₁ with elts := l₁.elts + 1, sx := [.blob l₁.bindata l₁.binread] } with
          bindata := none, binread := 0, binexpected := 0, state := .s1, valUsed := 0
          vcur := 0 }) with hlink | ⟨l₂, hlink⟩
    · rw [hlink]
      exact hfire
    · rw [hlink]
      exact stocked_link (l := { fire (·.binary)
        (.binary (l₁.bindata.getD []) l₁.binread)
        { l₁ with elts := l₁.elts + 1, sx := [.blob l₁.bindata l₁.binread] } with
          bindata := none, binread := 0, binexpected := 0, state := .s1, valUsed := 0
          vcur := 0 }) hfire hlink

lemma stocks_state15 (hi : StockedHead P Q l) (hs : l.state = .s15) (hb : BuildsOnly P Q env c l) :
    Stocks P Q (state15 env l) := by
  have hquiet := @buildsNone_readBlob P Q env l
  rw [state15]
  cases hread : readBlob env l with
  | error stop =>
    rw [hread] at hquiet
    cases stop with
    | ret r => exact hquiet
    | fault f => trivial
  | ok l₁ =>
    rw [hread] at hquiet
    have hi₁ := hi.unbuilt hquiet
    rw [ok_bind]
    split_ifs with hend
    · obtain ⟨hP, hQ⟩ := hb _ (.blob hs hread hend)
      exact stocks_endBlob hi₁ hP hQ
    · exact hi₁

lemma stocks_finish (hi : StockedHead P Q l) : Stocks P Q (.error (finish env l)) := by
  rw [finish]
  split_ifs
  · exact stocks_returnTree hi
  · split
    · trivial
    · exact ⟨hi.levels, trivial, hi.events⟩

lemma stocks_switch (hstart : Q .startSexpr) (hend : Q .endSexpr) (hi : StockedHead P Q l)
    (hb : BuildsOnly P Q env c l) : Stocks P Q (switch env c l) := by
  rw [switch]
  cases hs : l.state with
  | s1 => exact stocks_state1 hstart hi
  | s2 => exact stocks_state2 hi
  | s3 => exact stocks_state3 hend hi
  | s4 => exact stocks_state4 hi hs hb
  | s5 => exact stocks_state5 hi hs hb
  | s6 => exact hi
  | s7 => exact stocks_state7 hi
  | s8 => exact stocks_state8 hi hs hb
  | s9 => exact stocks_state9 hi fun hq hlt => hb _ (.listEnd hs hq hlt)
  | s10 => exact stocks_state10 hi
  | s11 => exact hi
  | s12 => exact stocks_state12 hi
  | s13 => exact stocks_state13 hi
  | s14 => exact stocks_state14 hi
  | s15 => exact stocks_state15 hi hs hb
  | unknown => exact hi.save .unknownState

/-- The byte that a round is about to deal with. In state 15 none is looked at here. -/
def ByteAt (env : Env) (l : Locals) (c : Byte) : Prop :=
  l.state ≠ .s15 → env.buf[l.t]? = some c ∧ c ≠ nul ∧ l.t ≠ env.len

/-- A round adds nothing to the stack, the results and the callbacks but the atoms it builds. -/
theorem stocks_cparseHead (hstart : Q .startSexpr) (hend : Q .endSexpr) (hi : StockedHead P Q l)
    (hb : ∀ c, ByteAt env l c → BuildsOnly P Q env c l) : Stocks P Q (cparseHead env l) := by
  rw [cparseHead]
  by_cases h15 : l.state = .s15
  · rw [if_pos h15]
    split_ifs
    · exact stocks_finish hi
    · exact stocks_state15 hi h15 (hb nul fun h => absurd h15 h)
  · rw [if_neg h15, Env.read]
    split
    · rename_i c hbuf
      rw [ok_bind]
      split_ifs with hstop
      · exact stocks_finish hi
      · rw [not_or] at hstop
        exact stocks_switch hstart hend hi (hb c fun _ => ⟨hbuf, hstop⟩)
    · trivial

end Round

end Sfsexp.Proofs
