import Sfsexp.Proofs.Tokens

/-!
# The callbacks spell the tree

While lists are open, the callbacks made since the last tree spell the open lists and the children
read so far, from the outermost list inwards.
-/

namespace Sfsexp.Proofs

open Sfsexp

mutual
/-- The preorder traversal of an expression, as callbacks. -/
def preorder : Sexp → List Event
  | .value aty val _ valUsed => [.characters (val.take valUsed) valUsed aty]
  | .blob bindata binlength => [.binary (bindata.getD []) binlength]
  | .list elems => .startSexpr :: (preorderAll elems ++ [.endSexpr])

def preorderAll : List Sexp → List Event
  | [] => []
  | x :: xs => preorder x ++ preorderAll xs
end

lemma preorderAll_concat (T : List Sexp) (x : Sexp) :
    preorderAll (T ++ [x]) = preorderAll T ++ preorder x := by
  induction T with
  | nil => simp [preorderAll]
  | cons y T ih => simp [preorderAll, ih]

lemma preorder_list (T : List Sexp) :
    preorder (.list T) = .startSexpr :: (preorderAll T ++ [.endSexpr]) := by
  rw [preorder]

/-- The callbacks that spell the open lists. -/
def spell : List (List Sexp) → List Event
  | [] => []
  | T :: Ls => spell Ls ++ .startSexpr :: preorderAll T

lemma spell_concat (T : List Sexp) (Ls : List (List Sexp)) (x : Sexp) :
    spell ((T ++ [x]) :: Ls) = spell (T :: Ls) ++ preorder x := by
  simp [spell, preorderAll_concat]

/-- Closing a list completes its traversal. -/
lemma spell_close (T T' : List Sexp) (Ls : List (List Sexp)) :
    spell (T :: T' :: Ls) ++ [.endSexpr] = spell ((T' ++ [.list T]) :: Ls) := by
  simp [spell, preorderAll_concat, preorder_list]

/-- `parser_event_handlers_t` with every callback set. -/
def allHandlers : Handlers := ⟨true, true, true, true⟩

/-- The states that are met outside binary mode. -/
def textual : State → Bool
  | .s12 | .s13 | .s14 | .s15 | .unknown => false
  | _ => true

/-- The callbacks `evs` spell the open lists `L`; in state 2 a further list was announced. -/
structure Spelled (l : Regs) (evs : List Event) (L : List (List Sexp)) : Prop where
  stack : StackOk l.stack L
  depth : l.depth = L.length
  events : evs = spell L ++ if l.state = .s2 then [.startSexpr] else []
  mode : l.mode = .normal
  handlers : l.eventHandlers = some allHandlers
  textual : textual l.state = true

/-- At a loop head, after the callbacks `before` of earlier calls. -/
structure SpelledHead (before : List Event) (l : Locals) (L : List (List Sexp)) : Prop where
  spelled : Spelled l.toRegs (before ++ l.events) L
  fresh : L = [] → l.elts = 0

/-- A return with a tree completes its traversal; a return without one leaves the open lists. -/
def SpelledReturn (before : List Event) (r : Return) : Prop :=
  (r.cc.lastSexp = [] ∧ ∃ L, Spelled r.cc.toRegs (before ++ r.events) L) ∨
    ∃ x, r.cc.lastSexp = [x] ∧ before ++ r.events = preorder x ∧ Spelled r.cc.toRegs [] []

abbrev Spells (before : List Event) : Exec Locals → Prop :=
  Post (fun l => ∃ L, SpelledHead before l L) (SpelledReturn before) fun _ => True

/-- `l'` differs from `l` in the atom buffer, the escape flag and the cursor at most. -/
structure Quiet (l l' : Locals) : Prop where
  stack : l'.stack = l.stack
  depth : l'.depth = l.depth
  mode : l'.mode = l.mode
  handlers : l'.eventHandlers = l.eventHandlers
  elts : l'.elts = l.elts
  events : l'.events = l.events
  state : l'.state = l.state
  squoted : l'.squoted = l.squoted

abbrev Quietly (l : Locals) : Exec Locals → Prop := Post (Quiet l) (fun _ => False) fun _ => True

section Pieces

variable {env : Env} {l : Locals} {c : Byte}

lemma Quiet.trans {l' l'' : Locals} (h : Quiet l l') (h' : Quiet l' l'') : Quiet l l'' := by
  obtain ⟨h₁, h₂, h₃, h₄, h₅, h₆, h₇, h₈⟩ := h
  obtain ⟨g₁, g₂, g₃, g₄, g₅, g₆, g₇, g₈⟩ := h'
  exact ⟨g₁.trans h₁, g₂.trans h₂, g₃.trans h₃, g₄.trans h₄, g₅.trans h₅, g₆.trans h₆,
    g₇.trans h₇, g₈.trans h₈⟩

lemma quietly_writeCur : Quietly l (writeCur c l) := by
  rw [writeCur]
  split_ifs
  · exact ⟨rfl, rfl, rfl, rfl, rfl, rfl, rfl, rfl⟩
  · trivial

lemma quietly_overwrite : Quietly l (overwrite c l) := by
  rw [overwrite]
  split
  · trivial
  · split_ifs
    · exact ⟨rfl, rfl, rfl, rfl, rfl, rfl, rfl, rfl⟩
    · trivial

lemma quietly_grow (h : env.Succeeds) {keep : Bool} : Quietly l (grow env keep l) := by
  rw [grow]
  by_cases hfull : l.valUsed = l.valAllocated
  · rw [if_pos hfull, if_pos (h _)]
    exact ⟨rfl, rfl, rfl, rfl, rfl, rfl, rfl, rfl⟩
  · rw [if_neg hfull]
    exact ⟨rfl, rfl, rfl, rfl, rfl, rfl, rfl, rfl⟩

lemma quietly_store (h : env.Succeeds) : Quietly l (store env c l) := by
  refine Post.bind quietly_writeCur ?_
  intro l₁ h₁
  refine Post.mono (quietly_grow h) ?_ fun _ h => h
  intro l₂ h₂
  exact h₁.trans ⟨h₂.stack, h₂.depth, h₂.mode, h₂.handlers, h₂.elts, h₂.events, h₂.state, h₂.squoted⟩

lemma quietly_storeEsc (h : env.Succeeds) : Quietly l (storeEsc env c l) := by
  refine Post.bind quietly_writeCur ?_
  intro l₁ h₁
  refine Post.mono (quietly_grow h) ?_ fun _ h => h
  intro l₂ h₂
  exact h₁.trans ⟨h₂.stack, h₂.depth, h₂.mode, h₂.handlers, h₂.elts, h₂.events, h₂.state, h₂.squoted⟩

lemma quietly_closingQuote (h : env.Succeeds) : Quietly l (closingQuote env l) := by
  rw [closingQuote]
  split_ifs
  · exact quietly_store h
  · exact ⟨rfl, rfl, rfl, rfl, rfl, rfl, rfl, rfl⟩

end Pieces

section Round

variable {env : Env} {l : Locals} {c : Byte} {before : List Event} {L : List (List Sexp)}

/-- The open lists and the callbacks are as before, and so is the part state 2 has in them. -/
lemma SpelledHead.keep (hi : SpelledHead before l L) {l' : Locals} (hs : l.state ≠ .s2)
    (h : l'.stack = l.stack ∧ l'.depth = l.depth ∧ l'.mode = l.mode ∧
      l'.eventHandlers = l.eventHandlers ∧ l'.elts = l.elts ∧ l'.events = l.events)
    (hs' : l'.state ≠ .s2) (ht : textual l'.state = true) : SpelledHead before l' L := by
  obtain ⟨hstack, hdepth, hmode, hhandlers, helts, hevents⟩ := h
  refine ⟨⟨?_, ?_, ?_, ?_, ?_, ht⟩, ?_⟩
  · rw [hstack]
    exact hi.spelled.stack
  · rw [hdepth]
    exact hi.spelled.depth
  · have he := hi.spelled.events
    rw [if_neg hs] at he
    rw [if_neg hs', hevents, he]
  · rw [hmode]
    exact hi.spelled.mode
  · rw [hhandlers]
    exact hi.spelled.handlers
  · rw [helts]
    exact hi.fresh

lemma SpelledHead.quiet (hi : SpelledHead before l L) {l' l'' : Locals} (hs : l.state ≠ .s2)
    (h : Quiet l l') (hs' : l''.state ≠ .s2) (ht : textual l''.state = true)
    (hsame : l''.stack = l'.stack ∧ l''.depth = l'.depth ∧ l''.mode = l'.mode ∧
      l''.eventHandlers = l'.eventHandlers ∧ l''.elts = l'.elts ∧ l''.events = l'.events) :
    SpelledHead before l'' L := by
  obtain ⟨h₁, h₂, h₃, h₄, h₅, h₆⟩ := hsame
  exact hi.keep hs ⟨h₁.trans h.stack, h₂.trans h.depth, h₃.trans h.mode, h₄.trans h.handlers,
    h₅.trans h.elts, h₆.trans h.events⟩ hs' ht

/-- The callbacks at a loop head outside state 2. -/
lemma SpelledHead.events_eq (hi : SpelledHead before l L) (hs : l.state ≠ .s2) :
    before ++ l.events = spell L := by
  have he := hi.spelled.events
  rwa [if_neg hs, List.append_nil] at he

lemma heard_all (handler : Handlers → Bool) (e : Event) (hh : handler allHandlers = true)
    {o : Option Handlers} (ho : o = some allHandlers) : heard handler e o = [e] := by
  rw [ho, heard, if_pos hh]

lemma spells_state1 (h : env.Succeeds) (hi : SpelledHead before l L) (hs : l.state = .s1) :
    Spells before (state1 env c l) := by
  have hs2 : l.state ≠ .s2 := by simp [hs]
  rw [state1]
  split_ifs with h1 h2 h3 h4 h5 h6
  · exact ⟨L, hi.keep hs2 ⟨rfl, rfl, rfl, rfl, rfl, rfl⟩ hs2 (by simp [hs, textual])⟩
  · exact ⟨L, hi.keep hs2 ⟨rfl, rfl, rfl, rfl, rfl, rfl⟩ (by simp) rfl⟩
  · rw [fire_eq]
    refine ⟨L, ⟨hi.spelled.stack, hi.spelled.depth, ?_, hi.spelled.mode, hi.spelled.handlers, rfl⟩,
      hi.fresh⟩
    dsimp only
    rw [heard_all _ _ rfl hi.spelled.handlers, ← List.append_assoc, hi.events_eq hs2]
    simp
  · exact ⟨L, hi.keep hs2 ⟨rfl, rfl, rfl, rfl, rfl, rfl⟩ (by simp) rfl⟩
  · exact ⟨L, hi.keep hs2 ⟨rfl, rfl, rfl, rfl, rfl, rfl⟩ (by simp) rfl⟩
  · exact ⟨L, hi.keep hs2 ⟨rfl, rfl, rfl, rfl, rfl, rfl⟩ (by simp) rfl⟩
  · refine Post.bind (Post.mono quietly_writeCur (fun _ h => h) fun _ h => h.elim) ?_
    intro l₁ h₁
    refine Post.bind (Post.mono (quietly_grow h) (fun _ h => h) fun _ h => h.elim) ?_
    intro l₂ h₂
    have hmode : l₂.mode ≠ .inlineBinary := by
      rw [h₂.mode, h₁.mode]
      simp [hi.spelled.mode]
    refine ⟨L, hi.keep hs2 ⟨h₂.stack.trans h₁.stack, h₂.depth.trans h₁.depth,
      h₂.mode.trans h₁.mode, h₂.handlers.trans h₁.handlers, h₂.elts.trans h₁.elts,
      h₂.events.trans h₁.events⟩ ?_ ?_⟩
    · simp [hmode]
    · simp [hmode, textual]

lemma spells_state2 (h : env.Succeeds) (hi : SpelledHead before l L) (hs : l.state = .s2) :
    Spells before (state2 env l) := by
  obtain ⟨s, k, hrun, hok⟩ := state2_ok h hi.spelled.stack
  rw [hrun]
  refine ⟨[] :: L, ⟨hok, ?_, ?_, hi.spelled.mode, hi.spelled.handlers, rfl⟩, by simp⟩
  · simp [hi.spelled.depth]
  · have he := hi.spelled.events
    rw [if_pos hs] at he
    simpa [spell, preorderAll] using he

lemma spells_state3 (hi : SpelledHead before l L) (hs : l.state = .s3) :
    Spells before (state3 l) := by
  have he := hi.events_eq (by simp [hs])
  have hd := hi.spelled.depth
  have hh := heard_all (·.endSexpr) .endSexpr rfl hi.spelled.handlers
  match L with
  | [] =>
    rw [state3_bad hd]
    refine .inl ⟨rfl, [], hi.spelled.stack, hd, ?_, hi.spelled.mode, hi.spelled.handlers, rfl⟩
    simpa [Locals.save] using he
  | [T] =>
    obtain ⟨s, hrun, hok⟩ := state3_outer hi.spelled.stack hd
    rw [hrun]
    refine .inr ⟨.list T, rfl, ?_, hok, rfl, rfl, hi.spelled.mode, hi.spelled.handlers, rfl⟩
    dsimp only [Locals.save]
    rw [hh, ← List.append_assoc, he]
    simp [spell, preorder_list]
  | T :: T' :: Ls =>
    obtain ⟨s, hrun, hok⟩ := state3_inner hi.spelled.stack hd
    rw [hrun]
    refine ⟨_, ⟨hok, rfl, ?_, hi.spelled.mode, hi.spelled.handlers, rfl⟩, by simp⟩
    dsimp only
    rw [hh, ← List.append_assoc, he, spell_close]
    simp

/-- The end of a token: `l'` is left with the atom `x` in `sx`, and `x` was reported. -/
lemma spells_return (hi : SpelledHead before l []) (hs : l.state ≠ .s2) {x : Sexp} {r : Return}
    (hx : r.cc.lastSexp = [x]) (hevents : r.events = l.events ++ preorder x)
    (h : r.cc.stack = l.stack ∧ r.cc.depth = l.depth ∧ r.cc.mode = l.mode ∧
      r.cc.eventHandlers = l.eventHandlers ∧ r.cc.state = .s1) : SpelledReturn before r := by
  obtain ⟨hstack, hdepth, hmode, hhandlers, hstate⟩ := h
  refine .inr ⟨x, hx, ?_, ?_⟩
  · rw [hevents, ← List.append_assoc, hi.events_eq hs]
    rfl
  · refine ⟨?_, ?_, ?_, ?_, ?_, ?_⟩
    · rw [hstack]
      exact hi.spelled.stack
    · rw [hdepth]
      exact hi.spelled.depth
    · simp [hstate, spell]
    · rw [hmode]
      exact hi.spelled.mode
    · rw [hhandlers]
      exact hi.spelled.handlers
    · rw [hstate]
      rfl

lemma spells_add {T : List Sexp} {Ls : List (List Sexp)} (hi : SpelledHead before l (T :: Ls))
    (hs : l.state ≠ .s2) {x : Sexp} {l' : Locals} (hok : StackOk l'.stack ((T ++ [x]) :: Ls))
    (hevents : l'.events = l.events ++ preorder x)
    (h : l'.depth = l.depth ∧ l'.mode = l.mode ∧ l'.eventHandlers = l.eventHandlers)
    (hs' : l'.state ≠ .s2) (ht : textual l'.state = true) :
    SpelledHead before l' ((T ++ [x]) :: Ls) := by
  obtain ⟨hdepth, hmode, hhandlers⟩ := h
  refine ⟨⟨hok, ?_, ?_, ?_, ?_, ht⟩, by simp⟩
  · rw [hdepth, hi.spelled.depth]
    simp
  · rw [if_neg hs', hevents, ← List.append_assoc, hi.events_eq hs, spell_concat]
    simp
  · rw [hmode]
    exact hi.spelled.mode
  · rw [hhandlers]
    exact hi.spelled.handlers

lemma spells_afterBare {l' : Locals} (hi : SpelledHead before l' L) (hs : l'.state ≠ .s2) :
    SpelledHead before (afterBare c l') L := by
  rw [afterBare]
  split_ifs
  · exact hi.keep hs ⟨rfl, rfl, rfl, rfl, rfl, rfl⟩ (by simp) rfl
  · exact hi.keep hs ⟨rfl, rfl, rfl, rfl, rfl, rfl⟩ (by simp) rfl
  · exact hi.keep hs ⟨rfl, rfl, rfl, rfl, rfl, rfl⟩ (by simp) rfl

lemma heard_atom {o : Option Handlers} (ho : o = some allHandlers) (aty : AtomT) (l' : Locals) :
    heard (·.characters) (.characters (l'.val.take l'.valUsed) l'.valUsed aty) o =
      preorder (atomOf aty l') := by
  rw [heard_all _ _ rfl ho, atomOf, preorder]

lemma spells_endBare (h : env.Succeeds) (hi : SpelledHead before l L) (hs : l.state = .s4) :
    Spells before (endBare env c l) := by
  have hs2 : l.state ≠ .s2 := by simp [hs]
  have hatom := heard_atom hi.spelled.handlers (bareType l) (terminated l)
  by_cases hlt : l.vcur < l.val.length
  · match L with
    | [] =>
      rw [endBare_top h hlt hi.spelled.stack]
      exact spells_return hi hs2 rfl (congrArg (l.events ++ ·) hatom) ⟨rfl, rfl, rfl, rfl, rfl⟩
    | T :: Ls =>
      obtain ⟨s, hrun, hok⟩ := endBare_open h hlt hi.spelled.stack
      rw [hrun]
      refine ⟨_, spells_afterBare (spells_add hi hs2 hok ?_ ⟨rfl, rfl, rfl⟩ hs2 ?_) hs2⟩
      · exact congrArg (l.events ++ ·) hatom
      · exact hi.spelled.textual
  · rw [endBare, writeCur, if_neg hlt]
    trivial

lemma spells_state4 (h : env.Succeeds) (hi : SpelledHead before l L) (hs : l.state = .s4) :
    Spells before (state4 env c l) := by
  have hs2 : l.state ≠ .s2 := by simp [hs]
  rw [state4]
  split_ifs
  · refine Post.mono quietly_overwrite ?_ fun _ h => h.elim
    intro l' hq
    exact ⟨L, hi.quiet hs2 hq (by rwa [hq.state]) (by simp [hq.state, hs, textual])
      ⟨rfl, rfl, rfl, rfl, rfl, rfl⟩⟩
  · refine Post.bind (Post.mono (quietly_storeEsc h) (fun _ h => h) fun _ h => h.elim) ?_
    intro l' hq
    exact ⟨L, hi.quiet hs2 hq (by simpa [hq.state] using hs2) (by simp [hq.state, hs, textual])
      ⟨rfl, rfl, rfl, rfl, rfl, rfl⟩⟩
  · exact spells_endBare h hi hs

lemma spells_endQuoted (h : env.Succeeds) (hi : SpelledHead before l L) (hs : l.state = .s6) :
    Spells before (endQuoted env l) := by
  have hs2 : l.state ≠ .s2 := by simp [hs]
  have hquiet := @quietly_closingQuote env l h
  cases hq : closingQuote env l with
  | error stop =>
    rw [hq] at hquiet
    rw [endQuoted, hq]
    cases stop with
    | ret r => exact hquiet.elim
    | fault f => trivial
  | ok l' =>
    rw [hq] at hquiet
    have hi' : SpelledHead before l' L := hi.quiet hs2 hquiet (by simp [hquiet.state, hs])
      (by simp [hquiet.state, hs, textual]) ⟨rfl, rfl, rfl, rfl, rfl, rfl⟩
    have hs2' : l'.state ≠ .s2 := by simp [hquiet.state, hs]
    have hatom := heard_atom hi'.spelled.handlers (quotedType l') (terminated l')
    by_cases hlt : l'.vcur < l'.val.length
    · cases L with
      | nil =>
        rw [endQuoted_top h hq hlt hi'.spelled.stack]
        exact spells_return hi' hs2' rfl (congrArg (l'.events ++ ·) hatom)
          ⟨rfl, rfl, rfl, rfl, rfl⟩
      | cons T Ls =>
        obtain ⟨s, hrun, hok⟩ := endQuoted_open h hq hlt hi'.spelled.stack
        rw [hrun]
        refine ⟨_, spells_add hi' hs2' hok ?_ ⟨rfl, rfl, rfl⟩ hs2' ?_⟩
        · exact congrArg (l'.events ++ ·) hatom
        · exact hi'.spelled.textual
    · rw [endQuoted, hq, ok_bind, writeCur, if_neg hlt]
      trivial

lemma spells_state5Rest (h : env.Succeeds) (hi : SpelledHead before l L) (hs : l.state = .s5) :
    Spells before (state5Rest env c l) := by
  have hs2 : l.state ≠ .s2 := by simp [hs]
  rw [state5Rest]
  split_ifs
  · exact spells_endQuoted h (hi.keep hs2 ⟨rfl, rfl, rfl, rfl, rfl, rfl⟩ (by simp) rfl) rfl
  · refine Post.bind (Post.mono (quietly_store h) (fun _ h => h) fun _ h => h.elim) ?_
    intro l' hq
    exact ⟨L, hi.quiet hs2 hq (by simpa [hq.state] using hs2) (by simp [hq.state, hs, textual])
      ⟨rfl, rfl, rfl, rfl, rfl, rfl⟩⟩

lemma spells_state5 (h : env.Succeeds) (hi : SpelledHead before l L) (hs : l.state = .s5) :
    Spells before (state5 env c l) := by
  have hs2 : l.state ≠ .s2 := by simp [hs]
  rw [state5]
  split_ifs
  · refine Post.bind (Post.mono quietly_overwrite (fun _ h => h) fun _ h => h.elim) ?_
    intro l' hq
    rw [Env.read]
    split
    · refine @spells_state5Rest env l' _ before L h ?_ (hq.state.trans hs)
      exact hi.quiet hs2 hq (by simpa [hq.state] using hs2) (by simp [hq.state, hs, textual])
        ⟨rfl, rfl, rfl, rfl, rfl, rfl⟩
    · trivial
  · exact spells_state5Rest h hi hs

lemma spells_state7 (h : env.Succeeds) (hi : SpelledHead before l L) (hs : l.state = .s7) :
    Spells before (state7 env c l) := by
  have hs2 : l.state ≠ .s2 := by simp [hs]
  rw [state7]
  split_ifs
  · refine Post.bind (Post.mono (quietly_store h) (fun _ h => h) fun _ h => h.elim) ?_
    intro l' hq
    exact ⟨L, hi.keep hs2 ⟨hq.stack, hq.depth, hq.mode, hq.handlers, hq.elts, hq.events⟩
      (by simp [hq.state]) (by simp [hq.state, textual])⟩
  · exact ⟨L, hi.keep hs2 ⟨rfl, rfl, rfl, rfl, rfl, rfl⟩ (by simp) rfl⟩
  · exact ⟨L, hi.keep hs2 ⟨rfl, rfl, rfl, rfl, rfl, rfl⟩ (by simp) rfl⟩

lemma spells_endQuotedList (h : env.Succeeds) (hi : SpelledHead before l L) (hs : l.state = .s1) :
    Spells before (endQuotedList env l) := by
  have hs2 : l.state ≠ .s2 := by simp [hs]
  have hatom := heard_atom hi.spelled.handlers .squote (terminatedList l)
  by_cases hlt : l.vcur < l.val.length
  · match L with
    | [] =>
      rw [endQuotedList_top h hlt hi.spelled.stack]
      exact spells_return hi hs2 rfl (congrArg (l.events ++ ·) hatom) ⟨rfl, rfl, rfl, rfl, rfl⟩
    | T :: Ls =>
      obtain ⟨s, hrun, hok⟩ := endQuotedList_open h hlt hi.spelled.stack
      rw [hrun]
      refine ⟨_, spells_add hi hs2 hok ?_ ⟨rfl, rfl, rfl⟩ hs2 ?_⟩
      · exact congrArg (l.events ++ ·) hatom
      · exact hi.spelled.textual
  · rw [endQuotedList, writeCur, if_neg hlt]
    trivial

lemma spells_state9 (h : env.Succeeds) (hi : SpelledHead before l L) (hs : l.state ≠ .s2) :
    Spells before (state9 env l) := by
  rw [state9]
  split_ifs
  · exact spells_endQuotedList h (hi.keep hs ⟨rfl, rfl, rfl, rfl, rfl, rfl⟩ (by simp) rfl) rfl
  · exact ⟨L, hi.keep hs ⟨rfl, rfl, rfl, rfl, rfl, rfl⟩ (by simp) rfl⟩

lemma spells_state8 (h : env.Succeeds) (hi : SpelledHead before l L) (hs : l.state = .s8) :
    Spells before (state8 env c l) := by
  have hs2 : l.state ≠ .s2 := by simp [hs]
  have hcount : SpelledHead before (countParen c l) L ∧ (countParen c l).state ≠ .s2 ∧
      textual (countParen c l).state = true := by
    rw [countParen]
    split_ifs
    · exact ⟨hi.keep hs2 ⟨rfl, rfl, rfl, rfl, rfl, rfl⟩ hs2 (by simp [hs, textual]), hs2,
        by simp [hs, textual]⟩
    · exact ⟨hi.keep hs2 ⟨rfl, rfl, rfl, rfl, rfl, rfl⟩ hs2 (by simp [hs, textual]), hs2,
        by simp [hs, textual]⟩
    · exact ⟨hi.keep hs2 ⟨rfl, rfl, rfl, rfl, rfl, rfl⟩ (by simp) rfl, by simp, rfl⟩
    · exact ⟨hi.keep hs2 ⟨rfl, rfl, rfl, rfl, rfl, rfl⟩ (by simp) rfl, by simp, rfl⟩
    · exact ⟨hi, hs2, by simp [hs, textual]⟩
  obtain ⟨hi', hs2', htext⟩ := hcount
  rw [state8]
  refine Post.bind (Post.mono (quietly_storeEsc h) (fun _ h => h) fun _ h => h.elim) ?_
  intro l' hq
  have hi'' : SpelledHead before { l' with t := l'.t + 1 } L :=
    hi'.quiet hs2' hq (by simpa [hq.state] using hs2') (by simpa [hq.state] using htext)
      ⟨rfl, rfl, rfl, rfl, rfl, rfl⟩
  dsimp only
  split_ifs with h9
  · exact spells_state9 h hi'' (by simp [h9])
  · exact ⟨L, hi''⟩

lemma spells_state10 (h : env.Succeeds) (hi : SpelledHead before l L) (hs : l.state = .s10) :
    Spells before (state10 env c l) := by
  have hs2 : l.state ≠ .s2 := by simp [hs]
  rw [state10]
  split_ifs
  all_goals
    refine Post.bind (Post.mono (quietly_storeEsc h) (fun _ h => h) fun _ h => h.elim) ?_
    intro l' hq
    refine ⟨L, hi.keep hs2 ⟨hq.stack, hq.depth, hq.mode, hq.handlers, hq.elts, hq.events⟩ ?_ ?_⟩
    · simp [hq.state, hs]
    · simp [hq.state, hs, textual]

lemma spells_finish (hi : SpelledHead before l L) : Spells before (.error (finish env l)) := by
  have hopen : ¬ (l.depth = 0 ∧ 0 < l.elts) := by
    rintro ⟨hd, he⟩
    have hL : L = [] := List.eq_nil_of_length_eq_zero (hi.spelled.depth.symm.trans hd)
    have hfresh := hi.fresh hL
    omega
  rw [finish, if_neg hopen]
  split
  · trivial
  · exact .inl ⟨rfl, L, hi.spelled⟩

lemma spells_switch (h : env.Succeeds) (hi : SpelledHead before l L) :
    Spells before (switch env c l) := by
  have htext := hi.spelled.textual
  rw [switch]
  cases hs : l.state with
  | s1 => exact spells_state1 h hi hs
  | s2 => exact spells_state2 h hi hs
  | s3 => exact spells_state3 hi hs
  | s4 => exact spells_state4 h hi hs
  | s5 => exact spells_state5 h hi hs
  | s6 => exact ⟨L, hi.keep (by simp [hs]) ⟨rfl, rfl, rfl, rfl, rfl, rfl⟩ (by simp) rfl⟩
  | s7 => exact spells_state7 h hi hs
  | s8 => exact spells_state8 h hi hs
  | s9 => exact spells_state9 h hi (by simp [hs])
  | s10 => exact spells_state10 h hi hs
  | s11 =>
    refine ⟨L, hi.keep (by simp [hs]) ⟨rfl, rfl, rfl, rfl, rfl, rfl⟩ ?_ ?_⟩
    · dsimp only
      split_ifs <;> simp
    · dsimp only
      split_ifs <;> rfl
  | _ => simp [hs, textual] at htext

lemma spells_cparseHead (h : env.Succeeds) (hi : SpelledHead before l L) :
    Spells before (cparseHead env l) := by
  have h15 : l.state ≠ .s15 := by
    intro hs
    have htext := hi.spelled.textual
    rw [hs] at htext
    exact absurd htext (by decide)
  rw [cparseHead, if_neg h15, Env.read]
  split
  · rw [ok_bind]
    split_ifs
    · exact spells_finish hi
    · exact spells_switch h hi
  · trivial

end Round

/-- What a whole call does to the open lists and the callbacks. -/
lemma spells_call {k : Call} {cc : Pcont} {evs : List Event} {L : List (List Sexp)}
    (h : k.setup.Succeeds) (hi : Spelled cc.toRegs evs L) {r : Return}
    (hret : cparseSexp k.setup (some k.buf) k.len (some cc) k.errno = .ret r) :
    SpelledReturn evs r := by
  have hmode : cc.mode ≠ .eventsOnly := by simp [hi.mode]
  have hhead : k.head cc = cparseHead k.env := by rw [Call.head, if_neg hmode]
  rw [cparseSexp_eq_run, hhead] at hret
  have hstart : SpelledHead evs (cc.enter 0) L := by
    refine ⟨⟨hi.stack, hi.depth, ?_, hi.mode, hi.handlers, hi.textual⟩, fun _ => rfl⟩
    exact (List.append_nil evs).trans hi.events
  have hstep : ∀ l l' : Locals, (∃ L, SpelledHead evs l L) → cparseHead k.env l = .ok l' →
      ∃ L, SpelledHead evs l' L := by
    rintro l l' ⟨L', hl⟩ hnext
    have hs := @spells_cparseHead k.env l evs L' h hl
    rwa [hnext] at hs
  cases hrun : Loop.run (cparseHead k.env) (fuel k.env) (cc.enter 0) with
  | none =>
    rw [hrun] at hret
    cases hret
  | some stop =>
    obtain ⟨l, hreach, hexit⟩ := Loop.exit_of_halts ⟨_, hrun⟩
    obtain ⟨L', hl⟩ := Loop.invariant_of_step hstep ⟨L, hstart⟩ hreach
    have hs := @spells_cparseHead k.env l evs L' h hl
    rw [hexit] at hs
    rw [hrun] at hret
    cases stop with
    | fault f => cases hret
    | ret r' =>
      simp only [Result.ofStop, Result.ret.injEq] at hret
      rwa [← hret]

/-- A continuation in `PARSER_NORMAL` mode with all handlers set, and the callbacks made since the
last call that returned a tree. -/
inductive Heard : Pcont → List Event → Prop where
  | start (g : Setup) : Heard { Pcont.new g with eventHandlers := some allHandlers } []
  | call {cc : Pcont} {evs : List Event} {k : Call} {r : Return} (h : Heard cc evs)
      (halloc : k.setup.Succeeds)
      (hret : cparseSexp k.setup (some k.buf) k.len (some cc) k.errno = .ret r) :
      Heard r.cc (if r.cc.lastSexp.isEmpty then evs ++ r.events else [])

lemma spelled_of_heard {cc : Pcont} {evs : List Event} (h : Heard cc evs) :
    ∃ L, Spelled cc.toRegs evs L := by
  induction h with
  | start g => exact ⟨[], stackOk_makeStack, rfl, rfl, rfl, rfl, rfl⟩
  | call _ halloc hret ih =>
    obtain ⟨L, hi⟩ := ih
    rcases spells_call halloc hi hret with ⟨hnone, L', hL'⟩ | ⟨x, hx, -, hend⟩
    · refine ⟨L', ?_⟩
      rw [hnone]
      exact hL'
    · refine ⟨[], ?_⟩
      rw [hx]
      exact hend

/-- Whenever a call returns a tree, the callbacks since the last such call are its traversal. -/
theorem callbacks_spell_tree {cc : Pcont} {evs : List Event} (hcc : Heard cc evs) {k : Call}
    (halloc : k.setup.Succeeds) {r : Return}
    (hret : cparseSexp k.setup (some k.buf) k.len (some cc) k.errno = .ret r)
    (htree : r.cc.lastSexp ≠ []) :
    ∃ x, r.cc.lastSexp = [x] ∧ evs ++ r.events = preorder x := by
  obtain ⟨L, hi⟩ := spelled_of_heard hcc
  rcases spells_call halloc hi hret with ⟨hnone, -⟩ | ⟨x, hx, hevents, -⟩
  · exact absurd hnone htree
  · exact ⟨x, hx, hevents⟩

/-- The string `(a )` on a new continuation. -/
theorem callbacks_spell_tree_first :
    ∃ r x, cparseSexp .plain (some [lparen, 97, space, rparen, nul]) 4
        (some { Pcont.new .plain with eventHandlers := some allHandlers }) .ok = .ret r ∧
      r.cc.lastSexp = [x] ∧ [] ++ r.events = preorder x := by
  have hrun : ((cparseSexp .plain (some [lparen, 97, space, rparen, nul]) 4
      (some { Pcont.new .plain with eventHandlers := some allHandlers }) .ok).returnOf.map
        fun r => r.cc.lastSexp.isEmpty) = some false := by decide +kernel
  cases hret : cparseSexp .plain (some [lparen, 97, space, rparen, nul]) 4
      (some { Pcont.new .plain with eventHandlers := some allHandlers }) .ok with
  | ret r =>
    rw [hret] at hrun
    have htree : r.cc.lastSexp ≠ [] := by
      intro hnil
      simp [Result.returnOf, hnil] at hrun
    obtain ⟨x, hx⟩ := callbacks_spell_tree (.start .plain)
      (k := ⟨.plain, [lparen, 97, space, rparen, nul], 4, .ok⟩)
      (fun _ => rfl) hret htree
    exact ⟨r, x, rfl, hx⟩
  | null e => rw [hret] at hrun; cases hrun
  | fault f => rw [hret] at hrun; cases hrun
  | diverges => rw [hret] at hrun; cases hrun

end Sfsexp.Proofs
