import Sfsexp.Proofs.Buffer

/-!
# A call further back in a buffer

A round does the same on the bytes of a buffer wherever the buffer starts, however many elements the
call has completed and whatever callbacks it has made before.
-/

namespace Sfsexp.Proofs

open Sfsexp

/-- The buffer of `env` behind the bytes `pre`. -/
def ahead (pre : List Byte) (env : Env) : Env := ⟨env.toSetup, pre ++ env.buf, pre.length + env.len⟩

/-- The locals `d` bytes further on, with `n` more elements and the callbacks `E` before. The number of
allocations is `a`, and `sx` holds `x`. -/
def moved (d n : Nat) (E : List Event) (a : Nat) (x : List Sexp) (l : Locals) : Locals :=
  { l with t := d + l.t, elts := n + l.elts, events := E ++ l.events, allocs := a, sx := x }

/-- A return `d` bytes further on, with the callbacks `E` before. -/
def movedReturn (d : Nat) (E : List Event) (r : Return) : Return :=
  { r with cc := { r.cc with lastPos := r.cc.lastPos.map (d + ·) }
           events := E ++ r.events, cursor := d + r.cursor }

/-- The second piece does what the first one does, further on. Its returns set `lastPos`. -/
def Displaced (d n : Nat) (E : List Event) : Exec Locals → Exec Locals → Prop
  | .ok l, .ok l' => ∃ a x, l' = moved d n E a x l
  | .error (.ret r), .error (.ret r') => r.cc.lastPos = some r.cursor ∧ r' = movedReturn d E r
  | .error (.fault f), .error (.fault f') => f' = f
  | _, _ => False

section Pieces

variable {env : Env} {pre : List Byte} {d n a : Nat} {E : List Event} {x : List Sexp} {l : Locals}
  {c : Byte} {y y' : Exec Locals} {f f' : Locals → Exec Locals}

lemma Displaced.bind (hy : Displaced d n E y y')
    (hf : ∀ l a x, y = .ok l → Displaced d n E (f l) (f' (moved d n E a x l))) :
    Displaced d n E (y >>= f) (y' >>= f') := by
  rcases y with (r | e) | l
  · rcases y' with (r' | e') | l'
    · exact hy
    · exact hy.elim
    · exact hy.elim
  · rcases y' with (r' | e') | l'
    · exact hy.elim
    · exact hy
    · exact hy.elim
  · rcases y' with (r' | e') | l'
    · exact hy.elim
    · exact hy.elim
    · obtain ⟨a, x, rfl⟩ := hy
      exact hf l a x rfl

lemma displaced_fault {e : Fault} : Displaced d n E (.error (.fault e)) (.error (.fault e)) := rfl

lemma displaced_save {err : ErrCode} {ls : List Sexp} :
    Displaced d n E (.error (l.save err ls)) (.error ((moved d n E a x l).save err ls)) :=
  ⟨rfl, rfl⟩

lemma displaced_ite {p : Prop} [Decidable p] {z z' : Exec Locals} (hpos : p → Displaced d n E y y')
    (hneg : ¬p → Displaced d n E z z') :
    Displaced d n E (if p then y else z) (if p then y' else z') := by
  by_cases hp : p
  · rw [if_pos hp, if_pos hp]
    exact hpos hp
  · rw [if_neg hp, if_neg hp]
    exact hneg hp

lemma displaced_writeCur : Displaced d n E (writeCur c l) (writeCur c (moved d n E a x l)) := by
  rw [writeCur, writeCur]
  apply displaced_ite
  · intro _
    exact ⟨a, x, rfl⟩
  · intro _
    exact displaced_fault

lemma displaced_grow (h : env.Succeeds) (keep : Bool) :
    Displaced d n E (grow env keep l) (grow (ahead pre env) keep (moved d n E a x l)) := by
  have h' : (ahead pre env).Succeeds := h
  rw [grow, grow, if_pos (h _), if_pos (h' _)]
  apply displaced_ite
  · intro _
    exact ⟨a + 1, x, rfl⟩
  · intro _
    exact ⟨a, x, rfl⟩

lemma displaced_store (h : env.Succeeds) :
    Displaced d n E (store env c l) (store (ahead pre env) c (moved d n E a x l)) := by
  apply Displaced.bind displaced_writeCur
  intro l₁ a₁ x₁ _
  exact @displaced_grow env pre d n a₁ E x₁ { l₁ with valUsed := l₁.valUsed + 1 } h true

lemma displaced_storeEsc (h : env.Succeeds) :
    Displaced d n E (storeEsc env c l) (storeEsc (ahead pre env) c (moved d n E a x l)) := by
  apply Displaced.bind displaced_writeCur
  intro l₁ a₁ x₁ _
  exact @displaced_grow env pre d n a₁ E x₁
    { l₁ with esc := c == backslash, valUsed := l₁.valUsed + 1 } h true

lemma displaced_overwrite : Displaced d n E (overwrite c l) (overwrite c (moved d n E a x l)) := by
  unfold overwrite
  have hsame : (moved d n E a x l).vcur = l.vcur := rfl
  rw [hsame]
  cases l.vcur with
  | zero => exact displaced_fault
  | succ v =>
    apply displaced_ite
    · intro _
      exact ⟨a, x, rfl⟩
    · intro _
      exact displaced_fault

lemma displaced_need (h : env.Succeeds) :
    Displaced d n E (need env l) (need (ahead pre env) (moved d n E a x l)) := by
  have h' : (ahead pre env).Succeeds := h
  rw [need_ok h, need_ok h']
  exact ⟨a + 1, x, rfl⟩

lemma read_ahead (t : Nat) : (ahead pre env).read (pre.length + t) = env.read t := by
  have hget : (pre ++ env.buf)[pre.length + t]? = env.buf[t]? := by
    rw [List.getElem?_append_right (Nat.le_add_right _ _), Nat.add_sub_cancel_left]
  rw [Env.read, Env.read, ahead, hget]

/-- What an atom is put on is the same, and so is the atom. -/
lemma link_moved : link (moved d n E a l.sx l) = (link l).map (moved d n E a l.sx) := by
  unfold link
  have hsame : (moved d n E a l.sx l).stack = l.stack := rfl
  rw [hsame]
  cases l.stack.levels with
  | nil => rfl
  | cons top rest => rfl

lemma emitted_moved (aty : AtomT) :
    emitted (ahead pre env) aty (moved d n E a x l) =
      moved d n E (a + 1) (emitted env aty l).sx (emitted env aty l) := by
  simp only [emitted, moved, List.append_assoc]
  rfl

lemma displaced_emit (h : env.Succeeds) (aty : AtomT)
    (hf : ∀ a, Displaced d n E (f (emitted env aty l))
      (f' (moved d n E a (emitted env aty l).sx (emitted env aty l)))) :
    Displaced d n E (emit env aty l >>= f)
      (emit (ahead pre env) aty (moved d n E a x l) >>= f') := by
  have h' : (ahead pre env).Succeeds := h
  rw [emit_ok h, emit_ok h', ok_bind, ok_bind, emitted_moved]
  exact hf (a + 1)

lemma fire_moved (handler : Handlers → Bool) (e : Event) (l : Locals) :
    fire handler e (moved d n E a x l) = moved d n E a x (fire handler e l) := by
  rw [fire_eq, fire_eq]
  simp only [moved, List.append_assoc]

end Pieces

section States

variable {env : Env} {pre : List Byte} {n a : Nat} {E : List Event} {x : List Sexp} {l : Locals}
  {c : Byte}

/-- A round behind `pre`. -/
abbrev Behind (pre : List Byte) (n : Nat) (E : List Event) : Exec Locals → Exec Locals → Prop :=
  Displaced pre.length n E

lemma displaced_state1 (h : env.Succeeds) : Behind pre n E (state1 env c l)
    (state1 (ahead pre env) c (moved pre.length n E a x l)) := by
  rw [state1, state1]
  apply displaced_ite
  · intro _
    exact ⟨a, x, rfl⟩
  intro _
  apply displaced_ite
  · intro _
    exact ⟨a, x, rfl⟩
  intro _
  apply displaced_ite
  · intro _
    exact ⟨a, x, @fire_moved pre.length n a E x _ _ { l with state := .s2, t := l.t + 1 }⟩
  intro _
  apply displaced_ite
  · intro _
    exact ⟨a, x, rfl⟩
  intro _
  apply displaced_ite
  · intro _
    exact ⟨a, x, rfl⟩
  intro _
  apply displaced_ite
  · intro _
    exact ⟨a, x, rfl⟩
  intro _
  apply Displaced.bind (@displaced_writeCur pre.length n a E x { l with vcur := 0 } c)
  intro l₁ a₁ x₁ _
  apply Displaced.bind (@displaced_grow env pre pre.length n a₁ E x₁
    { l₁ with esc := c == backslash, valUsed := l₁.valUsed + 1 } h false)
  intro l₂ a₂ x₂ _
  exact ⟨a₂, x₂, rfl⟩

/-- The element of a new list finds its place by what is on the stack. -/
lemma displaced_attachList (h : env.Succeeds) (a : Nat) :
    Behind pre n E (attachList env l) (attachList (ahead pre env) (moved pre.length n E a l.sx l)) := by
  have h' : (ahead pre env).Succeeds := h
  rw [attachList, attachList]
  apply displaced_ite
  · intro _
    rw [need_ok h, need_ok h', ok_bind, ok_bind, push_ok h, push_ok h']
    exact ⟨_, l.sx, rfl⟩
  · intro _
    unfold link
    have hsame : (moved pre.length n E a l.sx l).stack = l.stack := rfl
    rw [hsame]
    rcases l.stack.levels with _ | ⟨top, rest⟩
    · exact displaced_fault
    · exact ⟨a, l.sx, rfl⟩

lemma displaced_state2 (h : env.Succeeds) : Behind pre n E (state2 env l)
    (state2 (ahead pre env) (moved pre.length n E a x l)) := by
  have h' : (ahead pre env).Succeeds := h
  rw [state2, state2, need_ok h, need_ok h', ok_bind, ok_bind]
  apply Displaced.bind (@displaced_attachList env pre n E
    { l with depth := l.depth + 1, allocs := l.allocs + 1, elts := l.elts + 1, sx := [.list []] } h
    (a + 1))
  intro l₁ a₁ x₁ _
  rw [need_ok h, need_ok h', ok_bind, ok_bind, push_ok h, push_ok h']
  exact ⟨_, x₁, rfl⟩

lemma displaced_closeLevel :
    Displaced pre.length n E (closeLevel l) (closeLevel (moved pre.length n E a x l)) := by
  unfold closeLevel
  have hsame : (moved pre.length n E a x l).stack = l.stack := rfl
  rw [hsame]
  rcases l.stack.pop with _ | ⟨sx, stack⟩
  · exact displaced_fault
  · dsimp only
    rcases stack.levels with _ | ⟨top, rest⟩
    · exact @displaced_save pre.length n a E sx { l with stack := stack, sx := sx } _ _
    · dsimp only
      rcases setLast top sx with _ | top
      · exact displaced_fault
      · exact ⟨a, sx, rfl⟩

/-- The chain of the last level is the tree; there is one. -/
lemma displaced_returnTree (hopen : l.stack.levels ≠ []) :
    Behind pre n E (.error (returnTree l)) (.error (returnTree (moved pre.length n E a x l))) := by
  obtain ⟨data, rest, hlevels⟩ := List.exists_cons_of_ne_nil hopen
  unfold returnTree
  have hsame : popAll (moved pre.length n E a x l).stack.levels
      (moved pre.length n E a x l).stack.spare (moved pre.length n E a x l).stack.height
      (moved pre.length n E a x l).sx =
        popAll l.stack.levels l.stack.spare l.stack.height l.sx := by
    change popAll l.stack.levels l.stack.spare l.stack.height x = _
    rw [hlevels]
    cases l.stack.height <;> rfl
  rw [hsame]
  rcases popAll l.stack.levels l.stack.spare l.stack.height l.sx with _ | ⟨stack, sx⟩
  · exact displaced_fault
  · exact @displaced_save pre.length n a E sx
      { l with stack := stack, sx := sx, esc := false, state := .s1 } _ _

/-- A level is closed into another one. -/
lemma levels_of_closeLevel {l₁ : Locals} (hclose : closeLevel l = .ok l₁) : l₁.stack.levels ≠ [] := by
  unfold closeLevel at hclose
  rcases hpop : l.stack.pop with _ | ⟨sx, stack⟩
  · rw [hpop] at hclose
    cases hclose
  rw [hpop] at hclose
  dsimp only at hclose
  rcases hlevels : stack.levels with _ | ⟨top, rest⟩
  · rw [hlevels] at hclose
    cases hclose
  rw [hlevels] at hclose
  dsimp only at hclose
  rcases hlast : setLast top sx with _ | top
  · rw [hlast] at hclose
    cases hclose
  · rw [hlast] at hclose
    obtain rfl := Except.ok.inj hclose
    exact List.cons_ne_nil _ _

lemma displaced_state3 : Behind pre n E (state3 l) (state3 (moved pre.length n E a x l)) := by
  rw [state3, state3]
  apply displaced_ite
  · intro _
    exact @displaced_save pre.length n a E x { l with esc := false, state := .s1 } _ _
  intro _
  apply Displaced.bind (@displaced_closeLevel pre n a E x { l with t := l.t + 1, depth := l.depth - 1 })
  intro l₁ a₁ x₁ hclose
  have hopen := levels_of_closeLevel hclose
  have hmoved : fire (·.endSexpr) .endSexpr { moved pre.length n E a₁ x₁ l₁ with state := .s1 } =
      moved pre.length n E a₁ x₁ (fire (·.endSexpr) .endSexpr { l₁ with state := .s1 }) :=
    @fire_moved pre.length n a₁ E x₁ _ _ { l₁ with state := .s1 }
  have hstack : (fire (·.endSexpr) .endSexpr { l₁ with state := .s1 }).stack = l₁.stack := by
    rw [fire_toRegs]
  dsimp only
  rw [hmoved]
  apply displaced_ite
  · intro _
    apply displaced_returnTree
    rwa [hstack]
  · intro _
    exact ⟨a₁, x₁, rfl⟩

lemma displaced_afterBare : Displaced pre.length n E (.ok (afterBare c l))
    (.ok (afterBare c (moved pre.length n E a x l))) := by
  rw [afterBare, afterBare]
  split_ifs
  · exact ⟨a, x, rfl⟩
  · exact ⟨a, x, rfl⟩
  · exact ⟨a, x, rfl⟩

/-- At the top level the atom is returned. -/
lemma displaced_endBare (h : env.Succeeds) : Behind pre n E (endBare env c l)
    (endBare (ahead pre env) c (moved pre.length n E a x l)) := by
  rw [endBare, endBare]
  apply Displaced.bind displaced_writeCur
  intro l₁ a₁ x₁ _
  apply Displaced.bind (@displaced_need env pre pre.length n a₁ E x₁
    { l₁ with valUsed := l₁.valUsed + 1 } h)
  intro l₂ a₂ x₂ _
  apply displaced_emit h
  intro a₃
  rw [link_moved]
  rcases link (emitted env (if l₂.squoted then .squote else .basic) l₂) with _ | l₃
  · exact @displaced_save pre.length n a₃ E _
      { emitted env (if l₂.squoted then .squote else .basic) l₂ with
        squoted := false, state := .s1, esc := false } _ _
  · exact displaced_afterBare

lemma displaced_state4 (h : env.Succeeds) : Behind pre n E (state4 env c l)
    (state4 (ahead pre env) c (moved pre.length n E a x l)) := by
  rw [state4, state4]
  apply displaced_ite
  · intro _
    exact displaced_overwrite
  intro _
  apply displaced_ite
  · intro _
    apply Displaced.bind (displaced_storeEsc h)
    intro l₁ a₁ x₁ _
    exact ⟨a₁, x₁, rfl⟩
  · intro _
    exact displaced_endBare h

lemma displaced_closingQuote (h : env.Succeeds) : Behind pre n E (closingQuote env l)
    (closingQuote (ahead pre env) (moved pre.length n E a x l)) := by
  rw [closingQuote, closingQuote]
  apply displaced_ite
  · intro _
    exact displaced_store h
  · intro _
    exact ⟨a, x, rfl⟩

lemma displaced_endQuoted (h : env.Succeeds) : Behind pre n E (endQuoted env l)
    (endQuoted (ahead pre env) (moved pre.length n E a x l)) := by
  rw [endQuoted, endQuoted]
  apply Displaced.bind (displaced_closingQuote h)
  intro l₁ a₁ x₁ _
  apply Displaced.bind displaced_writeCur
  intro l₂ a₂ x₂ _
  apply Displaced.bind (@displaced_need env pre pre.length n a₂ E x₂
    { l₂ with valUsed := l₂.valUsed + 1 } h)
  intro l₃ a₃ x₃ _
  apply @displaced_emit env pre pre.length n a₃ E x₃ { l₃ with squoted := false } _ _ h
  intro a₄
  rw [link_moved]
  rcases link (emitted env (if l₃.squoted then .squote else .dquote) { l₃ with squoted := false })
    with _ | l₄
  · exact @displaced_save pre.length n a₄ E _
      { emitted env (if l₃.squoted then .squote else .dquote) { l₃ with squoted := false } with
        t := _ + 1, squoted := false, esc := false, state := .s1 } _ _
  · exact ⟨a₄, _, rfl⟩

lemma displaced_state5Rest (h : env.Succeeds) : Behind pre n E (state5Rest env c l)
    (state5Rest (ahead pre env) c (moved pre.length n E a x l)) := by
  rw [state5Rest, state5Rest]
  apply displaced_ite
  · intro _
    exact @displaced_endQuoted env pre n a E x { l with state := .s6 } h
  · intro _
    apply Displaced.bind (displaced_store h)
    intro l₁ a₁ x₁ _
    exact ⟨a₁, x₁, rfl⟩

lemma displaced_state5 (h : env.Succeeds) : Behind pre n E (state5 env c l)
    (state5 (ahead pre env) c (moved pre.length n E a x l)) := by
  rw [state5, state5]
  apply displaced_ite
  · intro _
    apply Displaced.bind displaced_overwrite
    intro l₁ a₁ x₁ _
    have hread : (ahead pre env).read (moved pre.length n E a₁ x₁ l₁).t = env.read l₁.t := read_ahead _
    rw [hread, Env.read]
    cases env.buf[l₁.t]? with
    | none => exact displaced_fault
    | some c₁ =>
      rw [ok_bind, ok_bind]
      exact displaced_state5Rest h
  · intro _
    exact displaced_state5Rest h

lemma displaced_state7 (h : env.Succeeds) : Behind pre n E (state7 env c l)
    (state7 (ahead pre env) c (moved pre.length n E a x l)) := by
  rw [state7, state7]
  apply displaced_ite
  · intro _
    apply Displaced.bind (@displaced_store env pre pre.length n a E x
      { l with state := .s5, vcur := 0, t := l.t + 1 } dquote h)
    intro l₁ a₁ x₁ _
    exact ⟨a₁, x₁, rfl⟩
  intro _
  apply displaced_ite
  · intro _
    exact ⟨a, x, rfl⟩
  · intro _
    exact ⟨a, x, rfl⟩

lemma displaced_endQuotedList (h : env.Succeeds) : Behind pre n E (endQuotedList env l)
    (endQuotedList (ahead pre env) (moved pre.length n E a x l)) := by
  rw [endQuotedList, endQuotedList]
  apply Displaced.bind displaced_writeCur
  intro l₁ a₁ x₁ _
  apply Displaced.bind (displaced_need h)
  intro l₂ a₂ x₂ _
  apply displaced_emit h
  intro a₃
  rw [link_moved]
  rcases link (emitted env .squote l₂) with _ | l₃
  · exact @displaced_save pre.length n a₃ E _
      { emitted env .squote l₂ with squoted := false, esc := false, state := .s1 } _ _
  · exact ⟨a₃, _, rfl⟩

lemma displaced_state9 (h : env.Succeeds) : Behind pre n E (state9 env l)
    (state9 (ahead pre env) (moved pre.length n E a x l)) := by
  rw [state9, state9]
  apply displaced_ite
  · intro _
    exact @displaced_endQuotedList env pre n a E x { l with state := .s1 } h
  · intro _
    exact ⟨a, x, rfl⟩

lemma countParen_moved : countParen c (moved pre.length n E a x l) =
    moved pre.length n E a x (countParen c l) := by
  have hsame : (moved pre.length n E a x l).esc = l.esc := rfl
  rw [countParen, countParen, hsame]
  split_ifs <;> rfl

lemma displaced_state8 (h : env.Succeeds) : Behind pre n E (state8 env c l)
    (state8 (ahead pre env) c (moved pre.length n E a x l)) := by
  rw [state8, state8, countParen_moved]
  apply Displaced.bind (displaced_storeEsc h)
  intro l₁ a₁ x₁ _
  apply displaced_ite
  · intro _
    exact @displaced_state9 env pre n a₁ E x₁ { l₁ with t := l₁.t + 1 } h
  · intro _
    exact ⟨a₁, x₁, rfl⟩

lemma displaced_state10 (h : env.Succeeds) : Behind pre n E (state10 env c l)
    (state10 (ahead pre env) c (moved pre.length n E a x l)) := by
  have hmoved : (if c = dquote ∧ (moved pre.length n E a x l).esc = false then
      { moved pre.length n E a x l with state := .s8 } else moved pre.length n E a x l) =
        moved pre.length n E a x
          (if c = dquote ∧ l.esc = false then { l with state := .s8 } else l) := by
    have hsame : (moved pre.length n E a x l).esc = l.esc := rfl
    rw [hsame]
    split_ifs <;> rfl
  rw [state10, state10, hmoved]
  apply Displaced.bind (displaced_storeEsc h)
  intro l₁ a₁ x₁ _
  exact ⟨a₁, x₁, rfl⟩

lemma displaced_state12 (h : env.Succeeds) : Behind pre n E (state12 env c l)
    (state12 (ahead pre env) c (moved pre.length n E a x l)) := by
  rw [state12, state12]
  apply displaced_ite
  · intro _
    apply Displaced.bind (displaced_storeEsc h)
    intro l₁ a₁ x₁ _
    exact ⟨a₁, x₁, rfl⟩
  · intro _
    exact ⟨a, x, rfl⟩

lemma displaced_state13 (h : env.Succeeds) : Behind pre n E (state13 env c l)
    (state13 (ahead pre env) c (moved pre.length n E a x l)) := by
  rw [state13, state13]
  apply displaced_ite
  · intro _
    apply Displaced.bind (displaced_storeEsc h)
    intro l₁ a₁ x₁ _
    exact ⟨a₁, x₁, rfl⟩
  · intro _
    exact ⟨a, x, rfl⟩

lemma displaced_endSize (h : env.Succeeds) : Behind pre n E (endSize env l)
    (endSize (ahead pre env) (moved pre.length n E a x l)) := by
  rw [endSize, endSize]
  apply Displaced.bind displaced_writeCur
  intro l₁ a₁ x₁ _
  apply displaced_ite
  · intro _
    apply Displaced.bind (@displaced_need env pre pre.length n a₁ E x₁
      { l₁ with binexpected := toSize (atoi (cstr l₁.val)), binread := 0, bindata := none } h)
    intro l₂ a₂ x₂ _
    exact ⟨a₂, x₂, rfl⟩
  · intro _
    exact ⟨a₁, x₁, rfl⟩

lemma displaced_state14 (h : env.Succeeds) : Behind pre n E (state14 env c l)
    (state14 (ahead pre env) c (moved pre.length n E a x l)) := by
  rw [state14, state14]
  apply displaced_ite
  · intro _
    exact @displaced_endSize env pre n a E x { l with t := l.t + 1, state := .s15 } h
  · intro _
    apply Displaced.bind (displaced_storeEsc h)
    intro l₁ a₁ x₁ _
    exact ⟨a₁, x₁, rfl⟩

lemma displaced_readBlob : Behind pre n E (readBlob env l)
    (readBlob (ahead pre env) (moved pre.length n E a x l)) := by
  rw [readBlob, readBlob]
  apply displaced_ite
  · intro _
    have hread : (ahead pre env).read (moved pre.length n E a x l).t = env.read l.t := read_ahead _
    rw [hread, Env.read]
    cases env.buf[l.t]? with
    | none => exact displaced_fault
    | some c =>
      rw [ok_bind, ok_bind]
      have hsame : (moved pre.length n E a x l).bindata = l.bindata := rfl
      rw [hsame]
      cases l.bindata with
      | none => exact displaced_fault
      | some data =>
        apply displaced_ite
        · intro _
          exact ⟨a, x, rfl⟩
        · intro _
          exact displaced_fault
  · intro _
    exact ⟨a, x, rfl⟩

/-- Outside of lists the blob is left in `sx`. -/
lemma displaced_linked (hx : x = l.sx) : Displaced pre.length n E (.ok ((link l).getD l))
    (.ok ((link (moved pre.length n E a x l)).getD (moved pre.length n E a x l))) := by
  rw [hx, link_moved]
  rcases link l with _ | l'
  · exact ⟨a, l.sx, rfl⟩
  · exact ⟨a, l.sx, rfl⟩

lemma displaced_endBlob (h : env.Succeeds) : Behind pre n E (endBlob env l)
    (endBlob (ahead pre env) (moved pre.length n E a x l)) := by
  rw [endBlob, endBlob]
  apply Displaced.bind (displaced_need h)
  intro l₁ a₁ x₁ _
  have hmoved := @fire_moved pre.length n a₁ E [.blob l₁.bindata l₁.binread] (·.binary)
    (.binary (l₁.bindata.getD []) l₁.binread)
    { l₁ with elts := l₁.elts + 1, sx := [.blob l₁.bindata l₁.binread] }
  have hsx := fire_sx (·.binary) (.binary (l₁.bindata.getD []) l₁.binread)
    { l₁ with elts := l₁.elts + 1, sx := [.blob l₁.bindata l₁.binread] }
  exact hmoved ▸ displaced_linked hsx.symm

lemma displaced_state15 (h : env.Succeeds) : Behind pre n E (state15 env l)
    (state15 (ahead pre env) (moved pre.length n E a x l)) := by
  rw [state15, state15]
  apply Displaced.bind displaced_readBlob
  intro l₁ a₁ x₁ _
  apply displaced_ite
  · intro _
    exact displaced_endBlob h
  · intro _
    exact ⟨a₁, x₁, rfl⟩

lemma displaced_switch (h : env.Succeeds) : Behind pre n E (switch env c l)
    (switch (ahead pre env) c (moved pre.length n E a x l)) := by
  have hsame : (moved pre.length n E a x l).state = l.state := rfl
  rw [switch, switch, hsame]
  cases l.state with
  | s1 => exact displaced_state1 h
  | s2 => exact displaced_state2 h
  | s3 => exact displaced_state3
  | s4 => exact displaced_state4 h
  | s5 => exact displaced_state5 h
  | s6 => exact ⟨a, x, rfl⟩
  | s7 => exact displaced_state7 h
  | s8 => exact displaced_state8 h
  | s9 => exact displaced_state9 h
  | s10 => exact displaced_state10 h
  | s11 => exact ⟨a, x, rfl⟩
  | s12 => exact displaced_state12 h
  | s13 => exact displaced_state13 h
  | s14 => exact displaced_state14 h
  | s15 => exact displaced_state15 h
  | unknown => exact displaced_save

/-- A round further back in the buffer. Only the code after the loop asks how many elements there
are. -/
lemma displaced_cparseHead (h : env.Succeeds) (hend : l.t ≠ env.len)
    (hbyte : l.state ≠ .s15 → env.buf[l.t]? ≠ some nul) :
    Behind pre n E (cparseHead env l) (cparseHead (ahead pre env) (moved pre.length n E a x l)) := by
  have hend' : ¬ (moved pre.length n E a x l).t = (ahead pre env).len := fun heq =>
    hend (Nat.add_left_cancel heq)
  have hread : (ahead pre env).read (moved pre.length n E a x l).t = env.read l.t := read_ahead _
  have hstate : (moved pre.length n E a x l).state = l.state := rfl
  rw [cparseHead, cparseHead, hstate, hread]
  by_cases h15 : l.state = .s15
  · rw [if_pos h15, if_pos h15, if_neg hend, if_neg hend']
    exact displaced_state15 h
  · rw [if_neg h15, if_neg h15, Env.read]
    cases hc : env.buf[l.t]? with
    | none => exact displaced_fault
    | some c =>
      have hnul : c ≠ nul := fun heq => hbyte h15 (by rw [hc, heq])
      rw [ok_bind, ok_bind, if_neg (by simp [hnul, hend]), if_neg (by simp [hnul, hend'])]
      exact displaced_switch h

end States

end Sfsexp.Proofs
