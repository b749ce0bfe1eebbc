import Sfsexp.Proofs.Content
import Sfsexp.Proofs.TextSessions

/-!
# Sessions in mode `PARSER_NORMAL`, whatever is allocated

On any bytes and after any failed allocation, the write cursor stays behind the used part of the
atom buffer and no state of a binary atom is met, so the atoms that are built hold a C string.
-/

namespace Sfsexp.Proofs

open Sfsexp Spec

/-- The atom buffer is there as it was allocated, or not at all, and the write cursor is not past
the bytes that are counted as used. -/
structure Loose (r : Regs) : Prop where
  cursor : r.vcur ≤ r.valUsed
  cells : r.val ≠ [] → r.val.length = r.valAllocated

/-- What every round in mode `PARSER_NORMAL` keeps. In state 9 the closing paren is in the buffer. -/
structure Rough (r : Regs) : Prop extends Loose r where
  text : textual r.state = true
  closing : r.state = .s9 → 0 < r.valUsed

abbrev KeepsRough : Exec Locals → Prop :=
  Post (fun l => Rough l.toRegs) (fun r => Rough r.cc.toRegs) fun _ => True

/-- What storing `n` bytes leaves of the buffer, also when no larger one is to be had. -/
structure Counted (n : Nat) (l l' : Regs) : Prop extends Loose l' where
  state : l'.state = l.state
  mode : l'.mode = l.mode
  used : l'.valUsed = l.valUsed + n

abbrev Counting (n : Nat) (l : Locals) : Exec Locals → Prop :=
  Post (fun l' => Counted n l.toRegs l'.toRegs) (fun r => Counted n l.toRegs r.cc.toRegs) fun _ => True

section Pieces

variable {env : Env} {l l' : Locals} {c : Byte} {n : Nat}

lemma Loose.same {r r' : Regs} (h : Loose r) (hsame : SameCells r r') : Loose r' := by
  obtain ⟨⟨hval, hallocated, hused⟩, hcur⟩ := hsame
  refine ⟨?_, ?_⟩
  · rw [hcur, hused]
    exact h.cursor
  · rw [hval, hallocated]
    exact h.cells

lemma Loose.rough {r : Regs} (h : Loose r) (htext : textual r.state = true) (hs : r.state ≠ .s9) :
    Rough r := ⟨h, htext, fun h9 => absurd h9 hs⟩

lemma Rough.same {r r' : Regs} (h : Rough r) (hsame : SameCells r r')
    (htext : textual r'.state = true) (hs : r'.state ≠ .s9) : Rough r' :=
  (h.toLoose.same hsame).rough htext hs

lemma Counted.rough {r r' : Regs} (h : Counted (n + 1) r r') (htext : textual r.state = true) :
    Rough r' := by
  refine ⟨h.toLoose, by rwa [h.state], fun _ => ?_⟩
  rw [h.used]
  exact Nat.succ_pos _

/-- The growth code behind a byte that was counted. -/
lemma counting_grow {keep : Bool} (hcur : l.vcur < l.valUsed)
    (hcells : l.val.length = l.valAllocated) : Counting 0 l (grow env keep l) := by
  rw [grow]
  by_cases hfull : l.valUsed = l.valAllocated
  · rw [if_pos hfull]
    by_cases halloc : env.alloc l.allocs = true
    · rw [if_pos halloc]
      refine ⟨⟨le_refl _, fun _ => ?_⟩, rfl, rfl, rfl⟩
      simp [hcells]
    · rw [if_neg halloc]
      refine ⟨⟨Nat.le_of_lt hcur, fun hne => ?_⟩, rfl, rfl, rfl⟩
      cases keep with
      | true => exact hcells
      | false => exact absurd rfl hne
  · rw [if_neg hfull]
    exact ⟨⟨hcur, fun _ => hcells⟩, rfl, rfl, rfl⟩

lemma cells_of_lt (h : Loose l.toRegs) (hlt : l.vcur < l.val.length) :
    l.val.length = l.valAllocated := by
  apply h.cells
  rintro hnil
  rw [hnil] at hlt
  exact absurd hlt (Nat.not_lt_zero _)

lemma counting_store (h : Loose l.toRegs) : Counting 1 l (store env c l) := by
  rw [store, writeCur]
  by_cases hlt : l.vcur < l.val.length
  · rw [if_pos hlt, ok_bind]
    have hgrow := @counting_grow env { l with val := l.val.set l.vcur c, valUsed := l.valUsed + 1 }
      true (Nat.lt_succ_of_le h.cursor) (by simpa using cells_of_lt h hlt)
    exact hgrow.mono (fun _ h₁ => ⟨h₁.toLoose, h₁.state, h₁.mode, h₁.used⟩)
      fun _ h₁ => ⟨h₁.toLoose, h₁.state, h₁.mode, h₁.used⟩
  · rw [if_neg hlt]
    trivial

lemma counting_storeEsc (h : Loose l.toRegs) : Counting 1 l (storeEsc env c l) := by
  rw [storeEsc, writeCur]
  by_cases hlt : l.vcur < l.val.length
  · rw [if_pos hlt, ok_bind]
    have hgrow := @counting_grow env
      { l with val := l.val.set l.vcur c, esc := c == backslash, valUsed := l.valUsed + 1 }
      true (Nat.lt_succ_of_le h.cursor) (by simpa using cells_of_lt h hlt)
    exact hgrow.mono (fun _ h₁ => ⟨h₁.toLoose, h₁.state, h₁.mode, h₁.used⟩)
      fun _ h₁ => ⟨h₁.toLoose, h₁.state, h₁.mode, h₁.used⟩
  · rw [if_neg hlt]
    trivial

lemma counting_overwrite (h : Loose l.toRegs) : Counting 0 l (overwrite c l) := by
  rw [overwrite]
  split
  · trivial
  · split_ifs with hlt
    · refine ⟨⟨h.cursor, fun _ => ?_⟩, rfl, rfl, rfl⟩
      dsimp only
      rw [List.length_set]
      apply h.cells
      rintro hnil
      rw [hnil] at hlt
      exact absurd hlt (Nat.not_lt_zero _)
    · trivial

lemma counting_writeCur (h : Loose l.toRegs) : Counting 0 l (writeCur c l) := by
  rw [writeCur]
  split_ifs with hlt
  · refine ⟨⟨h.cursor, fun _ => ?_⟩, rfl, rfl, rfl⟩
    simpa using cells_of_lt h hlt
  · trivial

lemma Counted.settled {r r' : Regs} (h : Counted n r r') (htext : textual r.state = true)
    (hs : r.state ≠ .s9) : Rough r' := by
  refine h.toLoose.rough ?_ ?_
  · rwa [h.state]
  · rwa [h.state]

/-- The code that writes to the buffer outside state 9, and what follows it. -/
lemma Counting.settles {x : Exec Locals} {f : Locals → Exec Locals} (hx : Counting n l x)
    (htext : textual l.state = true) (hs : l.state ≠ .s9)
    (hf : ∀ l', Counted n l.toRegs l'.toRegs → KeepsRough (f l')) : KeepsRough (x >>= f) :=
  Post.bind (hx.mono (fun _ h => h) fun _ h => h.settled htext hs) hf

/-- The code that stores a byte, and what follows it. -/
lemma Counting.keeps {x : Exec Locals} {f : Locals → Exec Locals} (hx : Counting (n + 1) l x)
    (htext : textual l.state = true)
    (hf : ∀ l', Counted (n + 1) l.toRegs l'.toRegs → KeepsRough (f l')) : KeepsRough (x >>= f) :=
  Post.bind (hx.mono (fun _ h => h) fun _ h => h.rough htext) hf

/-- What a token that ends leaves in the buffer. -/
structure Reset (l : Regs) (l' : Regs) : Prop extends Loose l' where
  state : l'.state = l.state

/-- The end of a token: its counters are reset unless no new buffer is to be had. -/
lemma rough_emit (aty : AtomT) (h : Loose l.toRegs) (htext : textual l.state = true)
    (hs : l.state ≠ .s9) :
    Post (fun l' => Reset l.toRegs l'.toRegs) (fun r => Rough r.cc.toRegs) (fun _ => True)
      (emit env aty l) := by
  simp only [emit, fire_eq]
  split_ifs
  · refine ⟨⟨le_refl _, fun _ => ?_⟩, rfl⟩
    simp
  · exact Loose.rough ⟨h.cursor, fun hne => absurd rfl hne⟩ htext hs

lemma Reset.link {r : Regs} (h : Reset r l.toRegs) (hlink : link l = some l') :
    Reset r l'.toRegs := by
  rw [link_frame hlink]
  exact ⟨⟨h.cursor, h.cells⟩, h.state⟩

end Pieces

section Round

variable {env : Env} {l : Locals} {c : Byte}

lemma keepsRough_state1 (hm : l.mode = .normal) (hi : Rough l.toRegs) (hs : l.state = .s1) :
    KeepsRough (state1 env c l) := by
  rw [state1]
  split_ifs
  · exact hi.same ⟨⟨rfl, rfl, rfl⟩, rfl⟩ (by simp [hs, textual]) (by simp [hs])
  · exact hi.same ⟨⟨rfl, rfl, rfl⟩, rfl⟩ rfl (by simp)
  · rw [fire_eq]
    exact hi.same ⟨⟨rfl, rfl, rfl⟩, rfl⟩ rfl (by simp)
  · exact hi.same ⟨⟨rfl, rfl, rfl⟩, rfl⟩ rfl (by simp)
  · exact Loose.rough ⟨Nat.zero_le _, hi.cells⟩ rfl (by simp)
  · exact hi.same ⟨⟨rfl, rfl, rfl⟩, rfl⟩ rfl (by simp)
  · rw [writeCur]
    by_cases hlt : 0 < l.val.length
    · rw [if_pos hlt, ok_bind]
      have hgrow := @counting_grow env { l with vcur := 0, val := l.val.set 0 c
                                                esc := c == backslash, valUsed := l.valUsed + 1 }
        false (Nat.succ_pos _) (by simpa using hi.cells (List.length_pos_iff.mp hlt))
      refine Post.bind (hgrow.mono (fun _ h => h) fun r h => ?_) ?_
      · exact h.toLoose.rough (by rw [h.state]; simp [hs, textual]) (by simp [h.state, hs])
      · intro l₁ h₁
        have hblob : ¬ (c = hash ∧ l₁.mode = .inlineBinary) := by
          rintro ⟨-, hmode⟩
          rw [h₁.mode, hm] at hmode
          cases hmode
        rw [if_neg hblob]
        exact Loose.rough ⟨h₁.cursor, h₁.cells⟩ rfl (by simp)
    · rw [if_neg (by exact hlt)]
      trivial

/-- A piece that does not touch the buffer. -/
abbrev Untouched (l : Locals) : Exec Locals → Prop :=
  Post (fun l' => SameCells l.toRegs l'.toRegs ∧ l'.state = l.state)
    (fun r => SameCells l.toRegs r.cc.toRegs ∧ (r.cc.state = l.state ∨ r.cc.state = .s1)) fun _ => True

lemma SameCells.trans {r r' r'' : Regs} (h : SameCells r r') (h' : SameCells r' r'') :
    SameCells r r'' := by
  obtain ⟨⟨hval, hallocated, hused⟩, hcur⟩ := h
  obtain ⟨⟨hval', hallocated', hused'⟩, hcur'⟩ := h'
  exact ⟨⟨hval'.trans hval, hallocated'.trans hallocated, hused'.trans hused⟩, hcur'.trans hcur⟩

lemma Untouched.bind {x : Exec Locals} {f : Locals → Exec Locals} (hx : Untouched l x)
    (hf : ∀ l', Untouched l' (f l')) : Untouched l (x >>= f) := by
  refine Post.bind hx ?_
  rintro l₁ ⟨h₁, hs₁⟩
  refine (hf l₁).mono ?_ ?_
  · rintro l₂ ⟨h₂, hs₂⟩
    exact ⟨h₁.trans h₂, hs₂.trans hs₁⟩
  · rintro r ⟨h₂, hs₂⟩
    exact ⟨h₁.trans h₂, hs₂.imp_left fun h => h.trans hs₁⟩

lemma Untouched.keeps {x : Exec Locals} {f : Locals → Exec Locals} (hx : Untouched l x)
    (hi : Rough l.toRegs) (hs : l.state ≠ .s9)
    (hf : ∀ l', Rough l'.toRegs → l'.state = l.state → KeepsRough (f l')) : KeepsRough (x >>= f) := by
  refine Post.bind (hx.mono (fun _ h => h) ?_) ?_
  · rintro r ⟨hsame, h | h⟩
    · exact hi.same hsame (by rw [h]; exact hi.text) (by rwa [h])
    · exact hi.same hsame (by rw [h]; rfl) (by simp [h])
  · rintro l₁ ⟨h₁, hs₁⟩
    refine hf l₁ (hi.same h₁ ?_ ?_) hs₁
    · rw [hs₁]
      exact hi.text
    · rwa [hs₁]

lemma untouched_need : Untouched l (need env l) := by
  rw [need]
  split_ifs
  · exact ⟨⟨⟨rfl, rfl, rfl⟩, rfl⟩, rfl⟩
  · exact ⟨⟨⟨rfl, rfl, rfl⟩, rfl⟩, .inl rfl⟩

lemma untouched_push {data : List Sexp} : Untouched l (.ok (push env data l)) := by
  rw [push]
  split_ifs <;> exact ⟨⟨⟨rfl, rfl, rfl⟩, rfl⟩, rfl⟩

lemma untouched_attachList : Untouched l (attachList env l) := by
  rw [attachList]
  split_ifs
  · exact untouched_need.bind fun l₁ => untouched_push
  · cases hlink : link l with
    | none => trivial
    | some l₁ =>
      rw [link_frame hlink]
      exact ⟨⟨⟨rfl, rfl, rfl⟩, rfl⟩, rfl⟩

lemma untouched_closeLevel : Untouched l (closeLevel l) := by
  rw [closeLevel]
  split
  · trivial
  · split
    · exact ⟨⟨⟨rfl, rfl, rfl⟩, rfl⟩, .inl rfl⟩
    · split
      · trivial
      · exact ⟨⟨⟨rfl, rfl, rfl⟩, rfl⟩, rfl⟩

lemma untouched_returnTree : Untouched l (.error (returnTree l)) := by
  rw [returnTree]
  split
  · trivial
  · exact ⟨⟨⟨rfl, rfl, rfl⟩, rfl⟩, .inr rfl⟩

lemma keepsRough_returnTree (hi : Rough l.toRegs) (hs : l.state ≠ .s9) :
    KeepsRough (.error (returnTree l)) :=
  Untouched.keeps (f := .ok) untouched_returnTree hi hs fun _ h _ => h

lemma keepsRough_state2 (hi : Rough l.toRegs) (hs : l.state = .s2) : KeepsRough (state2 env l) := by
  rw [state2]
  refine Untouched.keeps (untouched_need (l := { l with depth := l.depth + 1 })) ?_ (by simp [hs]) ?_
  · exact hi.same ⟨⟨rfl, rfl, rfl⟩, rfl⟩ hi.text (by simp [hs])
  · intro l₁ h₁ hs₁
    have hs₁' : l₁.state = .s2 := hs₁.trans hs
    refine Untouched.keeps (untouched_attachList
      (l := { l₁ with elts := l₁.elts + 1, sx := [.list []] })) ?_ (by simp [hs₁']) ?_
    · exact h₁.same ⟨⟨rfl, rfl, rfl⟩, rfl⟩ h₁.text (by simp [hs₁'])
    · intro l₂ h₂ hs₂
      have hs₂' : l₂.state = .s2 := hs₂.trans hs₁'
      refine Untouched.keeps untouched_need h₂ (by simp [hs₂']) ?_
      intro l₃ h₃ hs₃
      obtain ⟨hsame, -⟩ := @untouched_push env l₃ []
      exact h₃.same ⟨hsame.buffer, hsame.cursor⟩ rfl (by simp)

lemma keepsRough_state3 (hi : Rough l.toRegs) (hs : l.state = .s3) : KeepsRough (state3 l) := by
  rw [state3]
  split_ifs
  · exact hi.same ⟨⟨rfl, rfl, rfl⟩, rfl⟩ rfl (by simp)
  · refine Untouched.keeps (untouched_closeLevel
      (l := { l with t := l.t + 1, depth := l.depth - 1 })) ?_ (by simp [hs]) ?_
    · exact hi.same ⟨⟨rfl, rfl, rfl⟩, rfl⟩ hi.text (by simp [hs])
    · intro l₁ h₁ _
      have hfire : Rough (fire (·.endSexpr) .endSexpr { l₁ with state := .s1 }).toRegs := by
        rw [fire_eq]
        exact h₁.same ⟨⟨rfl, rfl, rfl⟩, rfl⟩ rfl (by simp)
      dsimp only
      split_ifs
      · exact keepsRough_returnTree hfire (by rw [fire_eq]; simp)
      · exact hfire

/-- The end of a token behind its terminator: the node is made and the atom is reported. -/
lemma keepsRough_token {a : Locals → AtomT} {f : Locals → Locals}
    {onReturn onStay : Locals → Exec Locals} (h : Loose l.toRegs) (htext : textual l.state = true)
    (hs : l.state ≠ .s9) (hf : ∀ m, SameCells m.toRegs (f m).toRegs ∧ (f m).state = m.state)
    (hret : ∀ m, Reset l.toRegs m.toRegs → KeepsRough (onReturn m))
    (hstay : ∀ m, Reset l.toRegs m.toRegs → KeepsRough (onStay m)) :
    KeepsRough (need env l >>= fun l => emit env (a l) (f l) >>= fun l =>
      match link l with
      | none => onReturn l
      | some l => onStay l) := by
  refine Untouched.keeps untouched_need (h.rough htext hs) hs ?_
  intro l₁ h₁ hs₁
  obtain ⟨hsame, hsf⟩ := hf l₁
  have hs₂ : (f l₁).state = l.state := hsf.trans hs₁
  refine Post.bind (rough_emit (a l₁) (h₁.toLoose.same hsame) ?_ ?_) ?_
  · rwa [hs₂]
  · rwa [hs₂]
  · intro l₂ h₂
    cases hlink : link l₂ with
    | none => exact hret l₂ ⟨h₂.toLoose, h₂.state.trans hs₂⟩
    | some l₃ =>
      have h₃ := h₂.link hlink
      exact hstay l₃ ⟨h₃.toLoose, h₃.state.trans hs₂⟩

lemma keepsRough_endBare (hi : Rough l.toRegs) (hs : l.state = .s4) :
    KeepsRough (endBare env c l) := by
  rw [endBare]
  refine (counting_writeCur hi.toLoose).settles hi.text (by simp [hs]) ?_
  intro l₁ h₁
  have hs₁ : l₁.state = .s4 := h₁.state.trans hs
  have hone : Loose { l₁ with valUsed := l₁.valUsed + 1 }.toRegs :=
    ⟨Nat.le_succ_of_le h₁.cursor, h₁.cells⟩
  refine keepsRough_token (f := fun l => l) hone (by simp [hs₁, textual]) (by simp [hs₁]) ?_ ?_ ?_
  · exact fun m => ⟨⟨⟨rfl, rfl, rfl⟩, rfl⟩, rfl⟩
  · intro m hm
    exact Loose.rough ⟨hm.cursor, hm.cells⟩ rfl (by simp)
  · intro m hm
    change Rough (afterBare c m).toRegs
    rw [afterBare]
    split_ifs <;> exact Loose.rough ⟨hm.cursor, hm.cells⟩ rfl (by simp)

lemma keepsRough_state4 (hi : Rough l.toRegs) (hs : l.state = .s4) :
    KeepsRough (state4 env c l) := by
  rw [state4]
  split_ifs
  · refine (counting_overwrite hi.toLoose).mono ?_ ?_ <;> intro m hm <;>
      exact hm.settled hi.text (by simp [hs])
  · refine (counting_storeEsc hi.toLoose).keeps hi.text ?_
    intro l₁ h₁
    have hs₁ : l₁.state = .s4 := h₁.state.trans hs
    exact Loose.rough ⟨h₁.cursor, h₁.cells⟩ (by simp [hs₁, textual]) (by simp [hs₁])
  · exact keepsRough_endBare hi hs

lemma counting_closingQuote (h : Loose l.toRegs) :
    ∃ n, Counting n l (closingQuote env l) := by
  rw [closingQuote]
  split_ifs
  · exact ⟨1, counting_store h⟩
  · exact ⟨0, ⟨⟨h.cursor, h.cells⟩, rfl, rfl, rfl⟩⟩

lemma keepsRough_endQuoted (hi : Rough l.toRegs) (hs : l.state = .s6) :
    KeepsRough (endQuoted env l) := by
  obtain ⟨n, hquote⟩ := @counting_closingQuote env l hi.toLoose
  rw [endQuoted]
  refine hquote.settles hi.text (by simp [hs]) ?_
  intro l₁ h₁
  have hs₁ : l₁.state = .s6 := h₁.state.trans hs
  refine (counting_writeCur h₁.toLoose).settles (by simp [hs₁, textual]) (by simp [hs₁]) ?_
  intro l₂ h₂
  have hs₂ : l₂.state = .s6 := h₂.state.trans hs₁
  have hone : Loose { l₂ with valUsed := l₂.valUsed + 1 }.toRegs :=
    ⟨Nat.le_succ_of_le h₂.cursor, h₂.cells⟩
  refine keepsRough_token (a := quotedType) (f := fun l => { l with squoted := false }) hone
    (by simp [hs₂, textual]) (by simp [hs₂]) ?_ ?_ ?_
  · exact fun m => ⟨⟨⟨rfl, rfl, rfl⟩, rfl⟩, rfl⟩
  · intro m hm
    exact Loose.rough ⟨hm.cursor, hm.cells⟩ rfl (by simp)
  · intro m hm
    have hsm : m.state = .s6 := hm.state.trans hs₂
    exact Loose.rough ⟨hm.cursor, hm.cells⟩ (by simp [hsm, textual]) (by simp [hsm])

lemma keepsRough_state5Rest (hi : Rough l.toRegs) (hs : l.state = .s5) :
    KeepsRough (state5Rest env c l) := by
  rw [state5Rest]
  split_ifs
  · exact keepsRough_endQuoted (hi.same ⟨⟨rfl, rfl, rfl⟩, rfl⟩ rfl (by simp)) rfl
  · refine (counting_store hi.toLoose).keeps hi.text ?_
    intro l₁ h₁
    have hs₁ : l₁.state = .s5 := h₁.state.trans hs
    exact Loose.rough ⟨h₁.cursor, h₁.cells⟩ (by simp [hs₁, textual]) (by simp [hs₁])

lemma keepsRough_state5 (hi : Rough l.toRegs) (hs : l.state = .s5) :
    KeepsRough (state5 env c l) := by
  rw [state5]
  split_ifs
  · refine (counting_overwrite hi.toLoose).settles hi.text (by simp [hs]) ?_
    intro l₁ h₁
    rw [Env.read]
    split
    · exact keepsRough_state5Rest (h₁.settled hi.text (by simp [hs])) (h₁.state.trans hs)
    · trivial
  · exact keepsRough_state5Rest hi hs

lemma keepsRough_state7 (hi : Rough l.toRegs) : KeepsRough (state7 env c l) := by
  have hstart : Loose { l with state := .s5, vcur := 0, t := l.t + 1 }.toRegs :=
    ⟨Nat.zero_le _, hi.cells⟩
  rw [state7]
  split_ifs
  · refine (counting_store hstart).keeps rfl ?_
    intro l₁ h₁
    exact Loose.rough ⟨h₁.cursor, h₁.cells⟩ (by simp [h₁.state, textual]) (by simp [h₁.state])
  · exact Loose.rough ⟨Nat.zero_le _, hi.cells⟩ rfl (by simp)
  · exact Loose.rough ⟨Nat.zero_le _, hi.cells⟩ rfl (by simp)

lemma keepsRough_state9 (hi : Rough l.toRegs) : KeepsRough (state9 env l) := by
  rw [state9]
  split_ifs
  · rw [endQuotedList]
    have hstart : Rough { l with state := .s1 }.toRegs :=
      hi.same ⟨⟨rfl, rfl, rfl⟩, rfl⟩ rfl (by simp)
    refine (counting_writeCur hstart.toLoose).settles rfl (by simp) ?_
    intro l₁ h₁
    have hs₁ : l₁.state = .s1 := h₁.state
    refine keepsRough_token (a := fun _ => .squote) (f := fun l => l) h₁.toLoose
      (by simp [hs₁, textual]) (by simp [hs₁]) ?_ ?_ ?_
    · exact fun m => ⟨⟨⟨rfl, rfl, rfl⟩, rfl⟩, rfl⟩
    · intro m hm
      exact Loose.rough ⟨hm.cursor, hm.cells⟩ rfl (by simp)
    · intro m hm
      have hsm : m.state = .s1 := hm.state.trans hs₁
      exact hm.toLoose.rough (by simp [hsm, textual]) (by simp [hsm])
  · exact hi.same ⟨⟨rfl, rfl, rfl⟩, rfl⟩ rfl (by simp)

lemma loose_countParen (hi : Rough l.toRegs) (hs : l.state = .s8) :
    Loose (countParen c l).toRegs ∧ textual (countParen c l).state = true := by
  obtain ⟨hsame, -⟩ := @sameCells_countParen l c hs
  refine ⟨hi.toLoose.same hsame, ?_⟩
  rw [countParen]
  split_ifs <;> simp [hs, textual]

lemma keepsRough_state8 (hi : Rough l.toRegs) (hs : l.state = .s8) :
    KeepsRough (state8 env c l) := by
  obtain ⟨hloose, htext⟩ := @loose_countParen l c hi hs
  rw [state8]
  refine (counting_storeEsc hloose).keeps htext ?_
  intro l₁ h₁
  have hrough : Rough { l₁ with t := l₁.t + 1 }.toRegs := h₁.rough htext
  dsimp only
  split_ifs
  · exact keepsRough_state9 hrough
  · exact hrough

lemma keepsRough_state10 (hi : Rough l.toRegs) (hs : l.state = .s10) :
    KeepsRough (state10 env c l) := by
  rw [state10]
  split_ifs
  · refine (counting_storeEsc (l := { l with state := .s8 }) ⟨hi.cursor, hi.cells⟩).keeps rfl ?_
    intro l₁ h₁
    exact Loose.rough ⟨h₁.cursor, h₁.cells⟩ (by simp [h₁.state, textual]) (by simp [h₁.state])
  · refine (counting_storeEsc hi.toLoose).keeps hi.text ?_
    intro l₁ h₁
    have hs₁ : l₁.state = .s10 := h₁.state.trans hs
    exact Loose.rough ⟨h₁.cursor, h₁.cells⟩ (by simp [hs₁, textual]) (by simp [hs₁])

lemma keepsRough_finish (hi : Rough l.toRegs) : KeepsRough (.error (finish env l)) := by
  rw [finish]
  split_ifs
  · have hunt := @untouched_returnTree l
    cases hret : returnTree l with
    | fault f => trivial
    | ret r =>
      rw [hret] at hunt
      obtain ⟨hsame, h | h⟩ := hunt
      · refine ⟨hi.toLoose.same hsame, by rw [h]; exact hi.text, ?_⟩
        rw [h, hsame.buffer.2.2]
        exact hi.closing
      · exact hi.same hsame (by rw [h]; rfl) (by simp [h])
  · split
    · trivial
    · exact hi

lemma keepsRough_switch (hm : l.mode = .normal) (hi : Rough l.toRegs) :
    KeepsRough (switch env c l) := by
  have htext := hi.text
  rw [switch]
  cases hs : l.state with
  | s1 => exact keepsRough_state1 hm hi hs
  | s2 => exact keepsRough_state2 hi hs
  | s3 => exact keepsRough_state3 hi hs
  | s4 => exact keepsRough_state4 hi hs
  | s5 => exact keepsRough_state5 hi hs
  | s6 => exact Loose.rough ⟨Nat.zero_le _, hi.cells⟩ rfl (by simp)
  | s7 => exact keepsRough_state7 hi
  | s8 => exact keepsRough_state8 hi hs
  | s9 => exact keepsRough_state9 hi
  | s10 => exact keepsRough_state10 hi hs
  | s11 =>
    dsimp only [state11]
    split_ifs <;> exact hi.same ⟨⟨rfl, rfl, rfl⟩, rfl⟩ rfl (by simp)
  | s12 | s13 | s14 | s15 | unknown => simp [hs, textual] at htext

/-- One round in mode `PARSER_NORMAL`. -/
lemma keepsRough_cparseHead (hm : l.mode = .normal) (hi : Rough l.toRegs) :
    KeepsRough (cparseHead env l) := by
  have htext := hi.text
  have hs15 : l.state ≠ .s15 := by
    intro hs
    simp [hs, textual] at htext
  rw [cparseHead, if_neg hs15, Env.read]
  split
  · rw [ok_bind]
    split_ifs
    · exact keepsRough_finish hi
    · exact keepsRough_switch hm hi
  · trivial

end Round

/-- A text atom with a C string in its buffer, of which at most the NUL is not counted as used. -/
def TextAtom : Sexp → Prop
  | .value aty val valAllocated valUsed =>
    aty ≠ .binary ∧ 0 < valUsed ∧ val.length = valAllocated ∧ (cstr val).length < valAllocated ∧
      (cstr val).length ≤ valUsed
  | _ => False

section Atoms

variable {env : Env} {l : Locals} {c : Byte}

lemma textAtom_terminated {aty : AtomT} {used : Nat} (h : Loose l.toRegs) (haty : aty ≠ .binary)
    (hlt : l.vcur < l.val.length) (hpos : 0 < used) (hused : l.valUsed ≤ used) :
    TextAtom (.value aty (l.val.set l.vcur nul) l.valAllocated used) := by
  have hcells := cells_of_lt h hlt
  have hcur := h.cursor
  have hlen : (cstr (l.val.set l.vcur nul)).length ≤ l.vcur := Cells.length_takeWhile_set_le hlt
  exact ⟨haty, hpos, by simpa using hcells, by omega, by omega⟩

lemma bareType_ne_binary (l : Locals) : bareType l ≠ .binary := by
  rw [bareType]
  split_ifs <;> simp

lemma quotedType_ne_binary (l : Locals) : quotedType l ≠ .binary := by
  rw [quotedType]
  split_ifs <;> simp

/-- Every atom that a round in mode `PARSER_NORMAL` builds is a text atom. -/
lemma textAtom_of_builds (hi : Rough l.toRegs) {x : Sexp} (hx : Builds env c l x) : TextAtom x := by
  cases hx with
  | bare hs hlt =>
    exact textAtom_terminated hi.toLoose (bareType_ne_binary l) hlt (Nat.succ_pos _) (Nat.le_succ _)
  | @quoted l₁ l₂ hs hpair hquote hlt =>
    have hstart : Loose l₁.toRegs := by
      rcases hpair with rfl | ⟨-, hpair⟩
      · exact hi.toLoose
      · have hback := @counting_overwrite l c hi.toLoose
        rw [hpair] at hback
        exact hback.toLoose
    obtain ⟨n, hstored⟩ := @counting_closingQuote env { l₁ with state := .s6 }
      ⟨hstart.cursor, hstart.cells⟩
    rw [hquote] at hstored
    exact textAtom_terminated hstored.toLoose (quotedType_ne_binary l₂) hlt (Nat.succ_pos _)
      (Nat.le_succ _)
  | @list l₁ hs hesc hc hstore hq hlt =>
    have hstored := @counting_storeEsc env { l with qdepth := l.qdepth - 1, state := .s9 } c
      ⟨hi.cursor, hi.cells⟩
    rw [hstore] at hstored
    have hused : l₁.valUsed = l.valUsed + 1 := hstored.used
    exact textAtom_terminated hstored.toLoose (by simp) hlt (hused ▸ Nat.succ_pos _) (le_refl _)
  | listEnd hs hq hlt =>
    exact textAtom_terminated hi.toLoose (by simp) hlt (hi.closing hs) (le_refl _)
  | blob hs hread hend =>
    have htext := hi.text
    simp [hs, textual] at htext

end Atoms

section Sessions

variable {C : Env → Locals → Prop} {cc : Pcont} {k : Call} {allocs : Nat} {l : Locals}

/-- The half-built lists of a continuation hold text atoms only. -/
structure Plain (cc : Pcont) : Prop where
  rough : Rough cc.toRegs
  levels : ∀ T ∈ cc.stack.levels, LeavesAll TextAtom T

lemma plain_head (hi : Rough l.toRegs) (hl : StockedHead TextAtom (fun _ => True) l) :
    Stocks TextAtom (fun _ => True) (cparseHead k.env l) := by
  apply stocks_cparseHead trivial trivial hl
  intro c _ x hx
  exact ⟨textAtom_of_builds hi hx, fun _ _ => trivial⟩

lemma plain_reaches (hC : ∀ env l, C env l → l.mode = .normal) {l₀ : Locals} (hi : Rough l₀.toRegs)
    (hl : StockedHead TextAtom (fun _ => True) l₀)
    (hrun : Loop.ReachesWhile (cparseHead k.env) (C k.env) l₀ l) :
    Rough l.toRegs ∧ StockedHead TextAtom (fun _ => True) l := by
  induction hrun with
  | refl => exact ⟨hi, hl⟩
  | @tail l₁ l₂ _ hstep ih =>
    obtain ⟨hround, hnext⟩ := hstep
    have hrough := @keepsRough_cparseHead k.env l₁ (hC _ _ hround) ih.1
    have hstock := @plain_head k l₁ ih.1 ih.2
    rw [hnext] at hrough hstock
    exact ⟨hrough, hstock⟩

/-- In every sequence of calls in mode `PARSER_NORMAL` the atoms on the stack are text atoms. -/
lemma plain_of_session (hC : ∀ env l, C env l → l.mode = .normal) (h : Session C cc) :
    Plain cc := by
  induction h with
  | @start g _ _ h =>
    rw [(initContinuation_eq_new h).1]
    refine ⟨Loose.rough ⟨le_refl _, fun _ => g.length_fresh _⟩ rfl (by simp [Pcont.new]), ?_⟩
    intro T hT
    cases hT
  | configure _ mode handlers ih =>
    exact ⟨⟨⟨ih.rough.cursor, ih.rough.cells⟩, ih.rough.text, ih.rough.closing⟩, ih.levels⟩
  | @call cc k allocs l r _ hrun hlast hret ih =>
    obtain ⟨-, hhead⟩ := head_of_normalRounds hC hrun (hC _ _ hlast)
    rw [hhead] at hrun hret
    have hstart : StockedHead TextAtom (fun _ => True) (cc.enter allocs) :=
      ⟨ih.levels, trivial, fun e he => by cases he⟩
    obtain ⟨hi, hl⟩ := plain_reaches hC ih.rough hstart hrun
    have hrough := @keepsRough_cparseHead k.env l (hC _ _ hlast) hi
    have hstock := @plain_head k l hi hl
    rw [hret] at hrough hstock
    exact ⟨hrough, hstock.levels⟩

/-- A round in mode `PARSER_NORMAL`. -/
abbrev NormalRound (_ : Env) (l : Locals) : Prop := l.mode = .normal

end Sessions

end Sfsexp.Proofs
