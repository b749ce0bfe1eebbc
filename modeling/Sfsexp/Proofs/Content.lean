import Sfsexp.Model.Constructors
import Sfsexp.Proofs.AtomBuffer
import Sfsexp.Proofs.Copying
import Sfsexp.Proofs.Emission
import Sfsexp.Proofs.ParseStack

/-!
# The trees that exist are consistent, and how they are copied

In every mode that builds trees the write cursor stays behind the used part of the atom buffer, and
the block of a binary atom has the length that was announced. So every atom that a parser builds is
consistent, as are those of the constructors, and `copy_sexp` copies the tree unless one of its
binary atoms has `NULL` for its bytes.
-/

namespace Sfsexp.Proofs

open Sfsexp Spec

/-- The atom buffer and the block of a binary atom at a loop head, whatever bytes were read. -/
structure Held (l : Regs) : Prop where
  room : Room l
  cursor : l.vcur ≤ l.valUsed
  blob : l.state = .s15 → (l.bindata.getD []).length = l.binexpected ∧ l.binread ≤ l.binexpected

/-- A round that keeps both. -/
abbrev KeepsHeld : Exec Locals → Prop :=
  Post (fun l => Held l.toRegs) (fun r => Held r.cc.toRegs) fun _ => True

/-- The cells of the atom buffer are as they were. -/
structure SameCells (l l' : Regs) : Prop where
  buffer : SameBuffer l l'
  cursor : l'.vcur = l.vcur

/-- What storing a byte leaves: room for the next one and the cursor behind what is used. -/
structure Stored (l l' : Locals) : Prop where
  room : Room l'.toRegs
  cursor : l'.vcur ≤ l'.valUsed
  state : l'.state = l.state

abbrev Storing (l : Locals) : Exec Locals → Prop := Post (Stored l) (fun _ => False) fun _ => True

section Pieces

variable {env : Env} {l l' : Locals} {c : Byte}

/-- Outside state 15 only the atom buffer counts. -/
lemma Held.of_room {l : Regs} (hr : Room l) (hcur : l.vcur ≤ l.valUsed) (hs : l.state ≠ .s15) :
    Held l := ⟨hr, hcur, fun h => absurd h hs⟩

lemma Held.same {l l' : Regs} (hi : Held l) (h : SameCells l l') (hs : l'.state ≠ .s15) :
    Held l' := by
  refine .of_room (hi.room.same h.buffer) ?_ hs
  rw [h.cursor, h.buffer.2.2]
  exact hi.cursor

/-- The cursor of the buffer goes back to its start. -/
lemma Held.restart {l l' : Regs} (hi : Held l) (h : SameBuffer l l') (hcur : l'.vcur = 0)
    (hs : l'.state ≠ .s15) : Held l' := by
  refine .of_room (hi.room.same h) ?_ hs
  rw [hcur]
  exact Nat.zero_le _

lemma Stored.held (h : Stored l l') (hs : l.state ≠ .s15) : Held l'.toRegs :=
  .of_room h.room h.cursor (by rwa [h.state])

/-- The growth code behind a byte that was counted. -/
lemma storing_grow (h : env.Succeeds) {keep : Bool} (hcells : l.val.length = l.valAllocated)
    (hused : l.valUsed ≤ l.valAllocated) (hcur : l.vcur < l.valUsed) :
    Storing l (grow env keep l) := by
  have hpos := env.params.grow_pos
  rw [grow]
  by_cases hfull : l.valUsed = l.valAllocated
  · rw [if_pos hfull, if_pos (h _)]
    refine ⟨⟨?_, ?_⟩, le_refl _, rfl⟩
    · simp [hcells]
    · dsimp only
      omega
  · rw [if_neg hfull]
    exact ⟨⟨hcells, by dsimp only; omega⟩, hcur, rfl⟩

lemma storing_store (h : env.Succeeds) (hr : Room l.toRegs) (hcur : l.vcur ≤ l.valUsed) :
    Storing l (store env c l) := by
  have hlt : l.vcur < l.val.length := by
    rw [hr.cells]
    exact Nat.lt_of_le_of_lt hcur hr.free
  have hgrow := @storing_grow env { l with val := l.val.set l.vcur c, valUsed := l.valUsed + 1 } h
    true (by simpa using hr.cells) hr.free (Nat.lt_succ_of_le hcur)
  rw [store, writeCur_ok hlt, ok_bind]
  exact hgrow.mono (fun _ hs => ⟨hs.room, hs.cursor, hs.state⟩) fun _ hs => hs

lemma storing_storeEsc (h : env.Succeeds) (hr : Room l.toRegs) (hcur : l.vcur ≤ l.valUsed) :
    Storing l (storeEsc env c l) := by
  have hlt : l.vcur < l.val.length := by
    rw [hr.cells]
    exact Nat.lt_of_le_of_lt hcur hr.free
  have hgrow := @storing_grow env
    { l with val := l.val.set l.vcur c, esc := c == backslash, valUsed := l.valUsed + 1 } h
    true (by simpa using hr.cells) hr.free (Nat.lt_succ_of_le hcur)
  rw [storeEsc, writeCur_ok hlt, ok_bind]
  exact hgrow.mono (fun _ hs => ⟨hs.room, hs.cursor, hs.state⟩) fun _ hs => hs

lemma storing_overwrite (hr : Room l.toRegs) (hcur : l.vcur ≤ l.valUsed) :
    Storing l (overwrite c l) := by
  rw [overwrite]
  split
  · trivial
  · split_ifs
    · exact ⟨⟨by simpa using hr.cells, hr.free⟩, hcur, rfl⟩
    · trivial

lemma storing_closingQuote (h : env.Succeeds) (hr : Room l.toRegs) (hcur : l.vcur ≤ l.valUsed) :
    Storing l (closingQuote env l) := by
  rw [closingQuote]
  split_ifs
  · exact storing_store h hr hcur
  · exact ⟨hr, hcur, rfl⟩

/-- A piece that stores a byte, and what is done with its locals. -/
lemma Storing.keepsHeld {x : Exec Locals} {f : Locals → Exec Locals} (hx : Storing l x)
    (hf : ∀ l', Stored l l' → KeepsHeld (f l')) : KeepsHeld (x >>= f) :=
  Post.bind (hx.mono (fun _ h => h) fun _ h => h.elim) hf

/-- The buffer is new after a token, and the atom may be put on the stack. -/
lemma held_emitted (aty : AtomT) (hs : l.state ≠ .s15) : Held (emitted env aty l).toRegs :=
  .of_room (.fresh rfl rfl rfl) (le_refl _) hs

lemma Held.link (hi : Held l.toRegs) (hs : l.state ≠ .s15) (hlink : link l = some l') :
    Held l'.toRegs := by
  rw [link_frame hlink]
  exact hi.same ⟨⟨rfl, rfl, rfl⟩, rfl⟩ hs

end Pieces

section Round

variable {env : Env} {l : Locals} {c : Byte}

lemma heldBy_state1 (h : env.Succeeds) (hi : Held l.toRegs) (hs : l.state = .s1) :
    KeepsHeld (state1 env c l) := by
  have hsame : SameCells l.toRegs l.toRegs := ⟨⟨rfl, rfl, rfl⟩, rfl⟩
  rw [state1]
  split_ifs
  · exact hi.same ⟨⟨rfl, rfl, rfl⟩, rfl⟩ (by simp [hs])
  · exact hi.same ⟨⟨rfl, rfl, rfl⟩, rfl⟩ (by simp)
  · rw [fire_eq]
    exact hi.same ⟨⟨rfl, rfl, rfl⟩, rfl⟩ (by simp)
  · exact hi.same ⟨⟨rfl, rfl, rfl⟩, rfl⟩ (by simp)
  · exact hi.restart ⟨rfl, rfl, rfl⟩ rfl (by simp)
  · exact hi.same ⟨⟨rfl, rfl, rfl⟩, rfl⟩ (by simp)
  · have hr := hi.room
    have hlt : 0 < l.val.length := by
      rw [hr.cells]
      exact Nat.lt_of_le_of_lt (Nat.zero_le _) hr.free
    rw [writeCur_ok (by exact hlt), ok_bind]
    refine Storing.keepsHeld (storing_grow h ?_ hr.free ?_) ?_
    · simpa using hr.cells
    · exact Nat.succ_pos _
    · intro l₁ h₁
      refine .of_room (h₁.room.same ⟨rfl, rfl, rfl⟩) h₁.cursor ?_
      dsimp only
      split_ifs <;> simp

lemma sameCells_attachList (h : env.Succeeds) :
    Post (fun l' => SameCells l.toRegs l'.toRegs) (fun _ => False) (fun _ => True)
      (attachList env l) := by
  rw [attachList]
  split_ifs
  · rw [need_ok h, ok_bind, push_ok h]
    exact ⟨⟨rfl, rfl, rfl⟩, rfl⟩
  · cases hlink : link l with
    | none => trivial
    | some l' =>
      rw [link_frame hlink]
      exact ⟨⟨rfl, rfl, rfl⟩, rfl⟩

lemma heldBy_state2 (h : env.Succeeds) (hi : Held l.toRegs) : KeepsHeld (state2 env l) := by
  rw [state2, need_ok h, ok_bind]
  refine Post.bind ((sameCells_attachList h).mono (fun _ h => h) fun _ h => h.elim) ?_
  intro l₁ h₁
  rw [need_ok h, ok_bind, push_ok h]
  exact hi.same ⟨h₁.buffer, h₁.cursor⟩ (by simp)

lemma heldBy_returnTree (hi : Held l.toRegs) : KeepsHeld (.error (returnTree l)) := by
  rw [returnTree]
  split
  · trivial
  · exact hi.same ⟨⟨rfl, rfl, rfl⟩, rfl⟩ (by simp)

lemma heldBy_closeLevel (hi : Held l.toRegs) (hs : l.state ≠ .s15) : KeepsHeld (closeLevel l) := by
  rw [closeLevel]
  split
  · trivial
  · split
    · exact hi.same ⟨⟨rfl, rfl, rfl⟩, rfl⟩ hs
    · split
      · trivial
      · exact hi.same ⟨⟨rfl, rfl, rfl⟩, rfl⟩ hs

lemma heldBy_state3 (hi : Held l.toRegs) (hs : l.state = .s3) : KeepsHeld (state3 l) := by
  rw [state3]
  split_ifs
  · exact hi.same ⟨⟨rfl, rfl, rfl⟩, rfl⟩ (by simp)
  · refine Post.bind (heldBy_closeLevel (l := { l with t := l.t + 1, depth := l.depth - 1 }) ?_ ?_) ?_
    · exact hi.same ⟨⟨rfl, rfl, rfl⟩, rfl⟩ (by simp [hs])
    · simp [hs]
    · intro l₁ hi₁
      have hfire : Held (fire (·.endSexpr) .endSexpr { l₁ with state := .s1 }).toRegs := by
        rw [fire_eq]
        exact hi₁.same ⟨⟨rfl, rfl, rfl⟩, rfl⟩ (by simp)
      dsimp only
      split_ifs
      · exact heldBy_returnTree hfire
      · exact hfire

lemma lt_length_of_room {l : Regs} (hr : Room l) (hcur : l.vcur ≤ l.valUsed) :
    l.vcur < l.val.length := by
  rw [hr.cells]
  exact Nat.lt_of_le_of_lt hcur hr.free

lemma heldBy_endBare (h : env.Succeeds) (hi : Held l.toRegs) (hs : l.state = .s4) :
    KeepsHeld (endBare env c l) := by
  have hs15 : l.state ≠ .s15 := by simp [hs]
  have hnew : Held (emitted env (bareType l) (terminated l)).toRegs := held_emitted _ hs15
  rw [endBare_eq h (lt_length_of_room hi.room hi.cursor)]
  cases hlink : link (emitted env (bareType l) (terminated l)) with
  | none => exact hnew.same ⟨⟨rfl, rfl, rfl⟩, rfl⟩ (by simp)
  | some l₁ =>
    have hi₁ : Held l₁.toRegs := hnew.link hs15 hlink
    dsimp only
    rw [afterBare]
    split_ifs <;> exact hi₁.same ⟨⟨rfl, rfl, rfl⟩, rfl⟩ (by simp)

lemma heldBy_state4 (h : env.Succeeds) (hi : Held l.toRegs) (hs : l.state = .s4) :
    KeepsHeld (state4 env c l) := by
  have hs15 : l.state ≠ .s15 := by simp [hs]
  rw [state4]
  split_ifs
  · exact (storing_overwrite hi.room hi.cursor).mono (fun _ h => h.held hs15) fun _ h => h.elim
  · refine (storing_storeEsc h hi.room hi.cursor).keepsHeld ?_
    intro l₁ h₁
    exact (h₁.held hs15).same ⟨⟨rfl, rfl, rfl⟩, rfl⟩ (by simp [h₁.state, hs])
  · exact heldBy_endBare h hi hs

lemma heldBy_endQuoted (h : env.Succeeds) (hi : Held l.toRegs) (hs : l.state = .s6) :
    KeepsHeld (endQuoted env l) := by
  have hquote := storing_closingQuote h hi.room hi.cursor
  cases hq : closingQuote env l with
  | error stop =>
    rw [hq] at hquote
    rw [endQuoted, hq]
    cases stop with
    | ret r => exact hquote.elim
    | fault f => trivial
  | ok l₁ =>
    rw [hq] at hquote
    have hs15 : l₁.state ≠ .s15 := by simp [hquote.state, hs]
    have hnew : Held (emitted env (quotedType l₁) { terminated l₁ with squoted := false }).toRegs :=
      held_emitted _ hs15
    rw [endQuoted_eq h hq (lt_length_of_room hquote.room hquote.cursor)]
    cases hlink : link (emitted env (quotedType l₁) { terminated l₁ with squoted := false }) with
    | none => exact hnew.same ⟨⟨rfl, rfl, rfl⟩, rfl⟩ (by simp)
    | some l₂ =>
      have hi₂ : Held l₂.toRegs := hnew.link hs15 hlink
      have hs₂ : l₂.state ≠ .s15 := by
        rw [link_frame hlink]
        exact hs15
      exact hi₂.same ⟨⟨rfl, rfl, rfl⟩, rfl⟩ hs₂

lemma heldBy_state5Rest (h : env.Succeeds) (hi : Held l.toRegs) (hs : l.state = .s5) :
    KeepsHeld (state5Rest env c l) := by
  rw [state5Rest]
  split_ifs
  · exact heldBy_endQuoted h (hi.same ⟨⟨rfl, rfl, rfl⟩, rfl⟩ (by simp)) rfl
  · refine (storing_store h hi.room hi.cursor).keepsHeld ?_
    intro l₁ h₁
    exact .of_room (h₁.room.same ⟨rfl, rfl, rfl⟩) h₁.cursor (by simp [h₁.state, hs])

lemma heldBy_state5 (h : env.Succeeds) (hi : Held l.toRegs) (hs : l.state = .s5) :
    KeepsHeld (state5 env c l) := by
  rw [state5]
  split_ifs
  · refine (storing_overwrite hi.room hi.cursor).keepsHeld ?_
    intro l₁ h₁
    rw [Env.read]
    split
    · exact heldBy_state5Rest h (h₁.held (by simp [hs])) (h₁.state.trans hs)
    · trivial
  · exact heldBy_state5Rest h hi hs

lemma heldBy_state7 (h : env.Succeeds) (hi : Held l.toRegs) : KeepsHeld (state7 env c l) := by
  rw [state7]
  split_ifs
  · refine (storing_store h (l := { l with state := .s5, vcur := 0, t := l.t + 1 })
      (hi.room.same ⟨rfl, rfl, rfl⟩) (Nat.zero_le _)).keepsHeld ?_
    intro l₁ h₁
    exact .of_room (h₁.room.same ⟨rfl, rfl, rfl⟩) h₁.cursor (by simp [h₁.state])
  · exact hi.restart ⟨rfl, rfl, rfl⟩ rfl (by simp)
  · exact hi.restart ⟨rfl, rfl, rfl⟩ rfl (by simp)

lemma heldBy_endQuotedList (h : env.Succeeds) (hi : Held l.toRegs) (hs : l.state = .s1) :
    KeepsHeld (endQuotedList env l) := by
  have hs15 : l.state ≠ .s15 := by simp [hs]
  have hnew : Held (emitted env .squote (terminatedList l)).toRegs := held_emitted _ hs15
  rw [endQuotedList_eq h (lt_length_of_room hi.room hi.cursor)]
  cases hlink : link (emitted env .squote (terminatedList l)) with
  | none => exact hnew.same ⟨⟨rfl, rfl, rfl⟩, rfl⟩ (by simp)
  | some l₁ => exact hnew.link hs15 hlink

lemma heldBy_state9 (h : env.Succeeds) (hi : Held l.toRegs) : KeepsHeld (state9 env l) := by
  rw [state9]
  split_ifs
  · exact heldBy_endQuotedList h (hi.same ⟨⟨rfl, rfl, rfl⟩, rfl⟩ (by simp)) rfl
  · exact hi.same ⟨⟨rfl, rfl, rfl⟩, rfl⟩ (by simp)

lemma sameCells_countParen (hs : l.state = .s8) :
    SameCells l.toRegs (countParen c l).toRegs ∧ (countParen c l).state ≠ .s15 := by
  rw [countParen]
  split_ifs
  · exact ⟨⟨⟨rfl, rfl, rfl⟩, rfl⟩, by simp [hs]⟩
  · exact ⟨⟨⟨rfl, rfl, rfl⟩, rfl⟩, by simp [hs]⟩
  · exact ⟨⟨⟨rfl, rfl, rfl⟩, rfl⟩, by simp⟩
  · exact ⟨⟨⟨rfl, rfl, rfl⟩, rfl⟩, by simp⟩
  · exact ⟨⟨⟨rfl, rfl, rfl⟩, rfl⟩, by simp [hs]⟩

lemma heldBy_state8 (h : env.Succeeds) (hi : Held l.toRegs) (hs : l.state = .s8) :
    KeepsHeld (state8 env c l) := by
  obtain ⟨hsame, hs15⟩ := @sameCells_countParen l c hs
  have hi' := hi.same hsame hs15
  rw [state8]
  refine (storing_storeEsc h hi'.room hi'.cursor).keepsHeld ?_
  intro l₁ h₁
  have hi₁ : Held { l₁ with t := l₁.t + 1 }.toRegs := h₁.held hs15
  dsimp only
  split_ifs
  · exact heldBy_state9 h hi₁
  · exact hi₁

/-- A byte is stored and the state changes. -/
lemma heldBy_stored (h : env.Succeeds) {s : Locals} (hr : Room s.toRegs) (hcur : s.vcur ≤ s.valUsed)
    {f : Locals → Locals} (hf : ∀ m, m.state = s.state → SameCells m.toRegs (f m).toRegs ∧
      (f m).state ≠ .s15) : KeepsHeld (storeEsc env c s >>= fun l => .ok (f l)) := by
  refine (storing_storeEsc h hr hcur).keepsHeld ?_
  intro l₁ h₁
  obtain ⟨hsame, hs15⟩ := hf l₁ h₁.state
  refine .of_room (h₁.room.same hsame.buffer) ?_ hs15
  rw [hsame.cursor, hsame.buffer.2.2]
  exact h₁.cursor

lemma heldBy_state10 (h : env.Succeeds) (hi : Held l.toRegs) (hs : l.state = .s10) :
    KeepsHeld (state10 env c l) := by
  rw [state10]
  split_ifs
  · refine heldBy_stored h (s := { l with state := .s8 }) (hi.room.same ⟨rfl, rfl, rfl⟩)
      hi.cursor ?_
    intro m hm
    exact ⟨⟨⟨rfl, rfl, rfl⟩, rfl⟩, by simp [hm]⟩
  · refine heldBy_stored h hi.room hi.cursor ?_
    intro m hm
    exact ⟨⟨⟨rfl, rfl, rfl⟩, rfl⟩, by simp [hm, hs]⟩

lemma heldBy_state12 (h : env.Succeeds) (hi : Held l.toRegs) : KeepsHeld (state12 env c l) := by
  rw [state12]
  split_ifs
  · refine heldBy_stored h hi.room hi.cursor ?_
    intro m _
    exact ⟨⟨⟨rfl, rfl, rfl⟩, rfl⟩, by simp⟩
  · exact hi.same ⟨⟨rfl, rfl, rfl⟩, rfl⟩ (by simp)

lemma heldBy_state13 (h : env.Succeeds) (hi : Held l.toRegs) : KeepsHeld (state13 env c l) := by
  rw [state13]
  split_ifs
  · refine (storing_storeEsc h hi.room hi.cursor).keepsHeld ?_
    intro l₁ h₁
    refine .of_room ⟨h₁.room.cells, ?_⟩ (le_refl _) (by simp)
    exact Nat.lt_of_le_of_lt (Nat.zero_le _) h₁.room.free
  · exact hi.same ⟨⟨rfl, rfl, rfl⟩, rfl⟩ (by simp)

/-- The size of a binary atom: a block of that size is there when reading starts. -/
lemma heldBy_endSize (h : env.Succeeds) (hi : Held l.toRegs) :
    KeepsHeld (endSize env { l with t := l.t + 1, state := .s15 }) := by
  have hr : Room { l with val := l.val.set l.vcur nul }.toRegs :=
    ⟨by simpa using hi.room.cells, hi.room.free⟩
  have hlt : l.vcur < l.val.length := lt_length_of_room hi.room hi.cursor
  rw [endSize, writeCur_ok (by exact hlt), ok_bind]
  dsimp only
  split_ifs with hsize
  · rw [need_ok h, ok_bind]
    refine ⟨hr.same ⟨rfl, rfl, rfl⟩, hi.cursor, fun _ => ⟨?_, Nat.zero_le _⟩⟩
    simp
  · refine ⟨hr.same ⟨rfl, rfl, rfl⟩, hi.cursor, fun _ => ⟨?_, Nat.zero_le _⟩⟩
    exact (Nat.eq_zero_of_not_pos hsize).symm

lemma heldBy_state14 (h : env.Succeeds) (hi : Held l.toRegs) (hs : l.state = .s14) :
    KeepsHeld (state14 env c l) := by
  rw [state14]
  split_ifs
  · exact heldBy_endSize h hi
  · refine heldBy_stored h hi.room hi.cursor ?_
    intro m hm
    exact ⟨⟨⟨rfl, rfl, rfl⟩, rfl⟩, by simp [hm, hs]⟩

/-- One byte of a binary atom. -/
lemma heldBy_readBlob (hi : Held l.toRegs) (hs : l.state = .s15) :
    Post (fun l' => Held l'.toRegs ∧ l'.state = .s15) (fun _ => False) (fun _ => True)
      (readBlob env l) := by
  obtain ⟨hlen, hread⟩ := hi.blob hs
  rw [readBlob]
  split_ifs with hmore
  · rw [Env.read]
    split
    · rw [ok_bind]
      cases hdata : l.bindata with
      | none => trivial
      | some data =>
        dsimp only
        rw [hdata] at hlen
        split_ifs
        · refine ⟨⟨hi.room.same ⟨rfl, rfl, rfl⟩, hi.cursor, fun _ => ⟨?_, hmore⟩⟩, hs⟩
          simpa using hlen
        · trivial
    · trivial
  · exact ⟨hi, hs⟩

lemma heldBy_endBlob (h : env.Succeeds) (hi : Held l.toRegs) : KeepsHeld (endBlob env l) := by
  have hheld : ∀ l' : Regs, l'.val = l.val → l'.valAllocated = l.valAllocated → l'.valUsed = 0 →
      l'.vcur = 0 → l'.state = .s1 → Held l' := by
    intro l' hv ha hu hcur hs
    refine .of_room ⟨?_, ?_⟩ (by rw [hcur, hu]) (by simp [hs])
    · rw [hv, ha]
      exact hi.room.cells
    · rw [hu, ha]
      exact Nat.lt_of_le_of_lt (Nat.zero_le _) hi.room.free
  rw [endBlob, need_ok h, ok_bind]
  dsimp only [Post]
  rw [link]
  split <;> exact hheld _ (by simp) (by simp) (by simp) (by simp) (by simp)

lemma heldBy_state15 (h : env.Succeeds) (hi : Held l.toRegs) (hs : l.state = .s15) :
    KeepsHeld (state15 env l) := by
  rw [state15]
  refine Post.bind ((heldBy_readBlob hi hs).mono (fun _ h => h) fun _ h => h.elim) ?_
  rintro l₁ ⟨hi₁, -⟩
  split_ifs
  · exact heldBy_endBlob h hi₁
  · exact hi₁

lemma heldBy_finish (hi : Held l.toRegs) : KeepsHeld (.error (finish env l)) := by
  rw [finish]
  split_ifs
  · exact heldBy_returnTree hi
  · split
    · trivial
    · exact hi

lemma heldBy_switch (h : env.Succeeds) (hi : Held l.toRegs) : KeepsHeld (switch env c l) := by
  rw [switch]
  cases hs : l.state with
  | s1 => exact heldBy_state1 h hi hs
  | s2 => exact heldBy_state2 h hi
  | s3 => exact heldBy_state3 hi hs
  | s4 => exact heldBy_state4 h hi hs
  | s5 => exact heldBy_state5 h hi hs
  | s6 => exact hi.restart ⟨rfl, rfl, rfl⟩ rfl (by simp)
  | s7 => exact heldBy_state7 h hi
  | s8 => exact heldBy_state8 h hi hs
  | s9 => exact heldBy_state9 h hi
  | s10 => exact heldBy_state10 h hi hs
  | s11 =>
    refine hi.same ⟨⟨rfl, rfl, rfl⟩, rfl⟩ ?_
    dsimp only
    split_ifs <;> simp
  | s12 => exact heldBy_state12 h hi
  | s13 => exact heldBy_state13 h hi
  | s14 => exact heldBy_state14 h hi hs
  | s15 => exact heldBy_state15 h hi hs
  | unknown => exact hi

lemma heldBy_cparseHead (h : env.Succeeds) (hi : Held l.toRegs) : KeepsHeld (cparseHead env l) := by
  rw [cparseHead]
  by_cases h15 : l.state = .s15
  · rw [if_pos h15]
    split_ifs
    · exact heldBy_finish hi
    · exact heldBy_state15 h hi h15
  · rw [if_neg h15, Env.read]
    split
    · rw [ok_bind]
      split_ifs
      · exact heldBy_finish hi
      · exact heldBy_switch h hi
    · trivial

end Round

mutual
lemma consistent_of_leaves (x : Sexp) (h : Leaves Consistent x) : Consistent x := by
  match x, h with
  | .value aty val valAllocated valUsed, h => exact h
  | .blob bindata binlength, h => exact h
  | .list elems, h => exact consistentAll_of_leaves elems h

lemma consistentAll_of_leaves (xs : List Sexp) (h : LeavesAll Consistent xs) :
    ConsistentAll xs := by
  match xs, h with
  | [], _ => trivial
  | x :: xs, h => exact ⟨consistent_of_leaves x h.1, consistentAll_of_leaves xs h.2⟩
end

section Atoms

variable {env : Env} {l : Locals} {c : Byte}

/-- The atom in a terminated buffer, whether or not the NUL is counted. -/
lemma consistent_terminated (aty : AtomT) (hr : Room l.toRegs) (hcur : l.vcur ≤ l.valUsed)
    {used : Nat} (hused : l.valUsed ≤ used) (hmost : used ≤ l.valUsed + 1) :
    Consistent (.value aty (l.val.set l.vcur nul) l.valAllocated used) := by
  have hfree := hr.free
  have hlen : (cstr (l.val.set l.vcur nul)).length ≤ l.vcur :=
    Cells.length_takeWhile_set_le (lt_length_of_room hr hcur)
  exact .inr ⟨by simpa using hr.cells, by omega, by omega, by omega⟩

/-- Every atom that a round builds is consistent. -/
lemma consistent_of_builds (h : env.Succeeds) (hi : Held l.toRegs) {x : Sexp}
    (hx : Builds env c l x) : Consistent x := by
  cases hx with
  | bare hs hlt =>
    exact consistent_terminated _ hi.room hi.cursor (Nat.le_succ _) (le_refl _)
  | @quoted l₁ l₂ hs hpair hquote hlt =>
    have hstart : Room l₁.toRegs ∧ l₁.vcur ≤ l₁.valUsed := by
      rcases hpair with rfl | ⟨-, hpair⟩
      · exact ⟨hi.room, hi.cursor⟩
      · have hback := @storing_overwrite l c hi.room hi.cursor
        rw [hpair] at hback
        exact ⟨hback.room, hback.cursor⟩
    have hstored := @storing_closingQuote env { l₁ with state := .s6 } h
      (hstart.1.same ⟨rfl, rfl, rfl⟩) hstart.2
    rw [hquote] at hstored
    exact consistent_terminated _ hstored.room hstored.cursor (Nat.le_succ _) (le_refl _)
  | @list l₁ hs hesc hc hstore hq hlt =>
    have hstored := @storing_storeEsc env { l with qdepth := l.qdepth - 1, state := .s9 } c h
      (hi.room.same ⟨rfl, rfl, rfl⟩) hi.cursor
    rw [hstore] at hstored
    exact consistent_terminated _ hstored.room hstored.cursor (le_refl _) (Nat.le_succ _)
  | listEnd hs hq hlt =>
    exact consistent_terminated _ hi.room hi.cursor (le_refl _) (Nat.le_succ _)
  | @blob l₁ hs hread hend =>
    have hheld := @heldBy_readBlob env l hi hs
    rw [hread] at hheld
    obtain ⟨hlen, -⟩ := hheld.1.blob hheld.2
    intro data hdata
    rw [hdata, Option.getD_some] at hlen
    omega

end Atoms

section Sessions

variable {cc : Pcont} {k : Call} {allocs : Nat} {l : Locals}

/-- What a continuation holds between two calls. -/
structure Content (cc : Pcont) : Prop where
  held : Held cc.toRegs
  levels : ∀ T ∈ cc.stack.levels, LeavesAll Consistent T
  result : LeavesAll Consistent cc.lastSexp

lemma content_head (h : k.setup.Succeeds) (hi : Held l.toRegs)
    (hl : StockedHead Consistent (fun _ => True) l) :
    Stocks Consistent (fun _ => True) (cparseHead k.env l) := by
  apply stocks_cparseHead trivial trivial hl
  intro c _ x hx
  exact ⟨@consistent_of_builds k.env _ _ h hi _ hx, fun _ _ => trivial⟩

lemma content_reaches {l₀ : Locals} (hi : Held l₀.toRegs)
    (hl : StockedHead Consistent (fun _ => True) l₀)
    (hrun : Loop.ReachesWhile (cparseHead k.env) (ParserCall k.env) l₀ l) :
    Held l.toRegs ∧ StockedHead Consistent (fun _ => True) l := by
  induction hrun with
  | refl => exact ⟨hi, hl⟩
  | @tail l₁ l₂ _ hstep ih =>
    obtain ⟨hcall, hnext⟩ := hstep
    have hheld := @heldBy_cparseHead k.env l₁ hcall.1 ih.1
    have hstock := @content_head k l₁ hcall.1 ih.1 ih.2
    rw [hnext] at hheld hstock
    exact ⟨hheld, hstock⟩

/-- In every sequence of calls the trees and the half-built lists are consistent. -/
lemma content_of_session (h : Session ParserCall cc) : Content cc := by
  induction h with
  | @start g _ _ h =>
    rw [(initContinuation_eq_new h).1]
    refine ⟨.of_room ⟨g.length_fresh _, g.params.start_pos⟩ (le_refl _) (by simp [Pcont.new]), ?_,
      trivial⟩
    intro T hT
    cases hT
  | configure _ mode handlers ih =>
    exact ⟨⟨ih.held.room.same ⟨rfl, rfl, rfl⟩, ih.held.cursor, ih.held.blob⟩, ih.levels, ih.result⟩
  | @call cc k allocs l r _ hrun hlast hret ih =>
    obtain ⟨-, hhead⟩ := head_of_parserCall hrun hlast
    rw [hhead] at hrun hret
    have hstart : StockedHead Consistent (fun _ => True) (cc.enter allocs) :=
      ⟨ih.levels, trivial, fun _ _ => trivial⟩
    obtain ⟨hheld, hstock⟩ := content_reaches ih.held hstart hrun
    have hheld' := @heldBy_cparseHead k.env l hlast.1 hheld
    have hstock' := @content_head k l hlast.1 hheld hstock
    rw [hret] at hheld' hstock'
    exact ⟨hheld', hstock'.levels, hstock'.sx⟩

end Sessions

/-- The chains of elements that exist: results of the parser, what the constructors make, and what a
client makes of them by linking chains, cutting them and going down. -/
inductive Built : List Sexp → Prop where
  | parsed {cc : Pcont} (h : Session ParserCall cc) : Built cc.lastSexp
  | ofList {g : Setup} {l : List Sexp} {x : Sexp} {h h' : Heap} (hl : Built l)
      (hnew : newSexpList g l h = (some x, h')) : Built [x]
  | ofBinary {g : Setup} {data : Option (List Byte)} {binlength : Nat} {x : Sexp} {h h' : Heap}
      (hdata : ∀ cells, data = some cells → binlength ≤ cells.length)
      (hnew : newSexpBinaryAtom g data binlength h = (some x, h')) : Built [x]
  | ofAtom {g : Setup} {buf : List Byte} {bs : Nat} {aty : AtomT} {x : Sexp} {h h' : Heap}
      (hnew : newSexpAtom g buf bs aty h = .ok (some x, h')) : Built [x]
  | link {xs ys : List Sexp} (hx : Built xs) (hy : Built ys) : Built (xs ++ ys)
  | head {x : Sexp} {xs : List Sexp} (h : Built (x :: xs)) : Built [x]
  | next {x : Sexp} {xs : List Sexp} (h : Built (x :: xs)) : Built xs
  | children {elems xs : List Sexp} (h : Built (.list elems :: xs)) : Built elems

section Constructors

variable {g : Setup} {h h' : Heap} {x : Sexp}

lemma newSexpList_eq {l : List Sexp} (hnew : newSexpList g l h = (some x, h')) : x = .list l := by
  rw [newSexpList] at hnew
  split_ifs at hnew
  · cases hnew
  · cases hnew
    rfl

lemma newSexpBinaryAtom_eq {data : Option (List Byte)} {binlength : Nat}
    (hnew : newSexpBinaryAtom g data binlength h = (some x, h')) : x = .blob data binlength := by
  rw [newSexpBinaryAtom] at hnew
  split_ifs at hnew
  · cases hnew
  · cases hnew
    rfl

/-- An atom that `new_sexp_atom` made: the text of the argument in a block of `bs + 1` cells. -/
lemma newSexpAtom_eq {buf : List Byte} {bs : Nat} {aty : AtomT}
    (hnew : newSexpAtom g buf bs aty h = .ok (some x, h')) :
    ∃ val, x = .value aty val (bs + 1) (bs + 1) ∧ val.length = bs + 1 ∧ cstr val = cstr buf ∧
      (cstr buf).length ≤ bs := by
  rw [newSexpAtom] at hnew
  split_ifs at hnew with haty hnode hblock hnul hsize
  · cases hnew
  · cases hnew
  · cases hnew
  · cases hnew
    refine ⟨_, rfl, ?_, cstr_append_nul _ _, Nat.le_of_not_lt hsize⟩
    simp
    omega

end Constructors

lemma consistent_of_built {s : List Sexp} (h : Built s) : ConsistentAll s := by
  induction h with
  | parsed h => exact consistentAll_of_leaves _ (content_of_session h).result
  | ofList hl hnew ih =>
    rw [newSexpList_eq hnew]
    exact ⟨ih, trivial⟩
  | ofBinary hdata hnew =>
    rw [newSexpBinaryAtom_eq hnew]
    exact ⟨hdata, trivial⟩
  | ofAtom hnew =>
    obtain ⟨val, rfl, hlen, htext, hsize⟩ := newSexpAtom_eq hnew
    rw [← htext] at hsize
    exact ⟨.inr ⟨hlen, le_refl _, by omega, by omega⟩, trivial⟩
  | @link xs ys _ _ ihx ihy =>
    clear * - ihx ihy
    induction xs with
    | nil => exact ihy
    | cons x xs ih => exact ⟨ihx.1, ih ihx.2⟩
  | head _ ih => exact ⟨ih.1, trivial⟩
  | next _ ih => exact ih.2
  | children _ ih => exact ih.1

/-- With memory for everything, `copy_sexp` returns a structural copy of a tree exactly when none of
its binary atoms has `NULL` for its bytes. -/
theorem copy_faithful {g : Setup} (hg : g.Succeeds) {s : List Sexp} (hs : Built s) (h : Heap) :
    (∃ s' h', copySexp g s h = .ok (s', h') ∧ SameAll s s') ↔ HasDataAll s := by
  obtain ⟨s', h', hrun, hcopies⟩ := @copySexp_copies g s (consistent_of_built hs) h
  have hsame : SameAll s s' ↔ HasDataAll s := by
    rw [hcopies.same]
    exact and_iff_right (granted_of_succeeds hg)
  constructor
  · rintro ⟨s'', h'', hrun', hs''⟩
    rw [hrun] at hrun'
    cases hrun'
    exact hsame.mp hs''
  · intro hdata
    exact ⟨s', h', hrun, hsame.mpr hdata⟩

/-- The list of an empty binary atom without a block and the atom `b`. -/
def emptyBlobFirst : List Sexp := [.list [.blob none 0, .value .basic [98, nul] 2 2]]

lemma built_emptyBlobFirst : Built emptyBlobFirst := by
  have hblob : Built [.blob none 0] :=
    @Built.ofBinary .plain none 0 _ ⟨0, .ok⟩ _ (by simp) rfl
  have hatom : Built [.value .basic [98, nul] 2 2] :=
    @Built.ofAtom .plain [98, nul] 1 .basic _ ⟨0, .ok⟩ _ rfl
  exact .ofList (hblob.link hatom) (g := .plain) (h := ⟨0, .ok⟩) rfl

/-- The list `(a)` is copied. -/
theorem copy_faithful_list : ∃ s' h',
    copySexp .plain [.list [.value .basic [97, nul] 2 2]] ⟨0, .ok⟩ = .ok (s', h') ∧
      SameAll [.list [.value .basic [97, nul] 2 2]] s' := by
  have hatom : Built [.value .basic [97, nul] 2 2] :=
    @Built.ofAtom .plain [97, nul] 1 .basic _ ⟨0, .ok⟩ _ rfl
  have hlist : Built [.list [.value .basic [97, nul] 2 2]] :=
    .ofList hatom (g := .plain) (h := ⟨0, .ok⟩) rfl
  exact (copy_faithful (fun _ => rfl) hlist _).mpr ⟨⟨trivial, trivial⟩, trivial⟩

/-- The copy of a list whose first element is a binary atom without a block is the empty list. -/
theorem empty_blob_ends_copy : Built emptyBlobFirst ∧
    ∃ s' h', copySexp .plain emptyBlobFirst ⟨0, .ok⟩ = .ok (s', h') ∧ ¬ SameAll emptyBlobFirst s' := by
  refine ⟨built_emptyBlobFirst, [.list []], ⟨2, .memory⟩, ?_, ?_⟩
  · rfl
  · rintro ⟨hnone, _⟩
    exact hnone

end Sfsexp.Proofs
