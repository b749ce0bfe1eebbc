import Sfsexp.Proofs.Buffer

/-!
# How far a round moves the cursor

A round moves the cursor by at most one byte, or by two when it ends an escape pair inside double
quotes. When it does not move the cursor, the state goes down in a fixed rank. Allocations may fail.
-/

namespace Sfsexp.Proofs

open Sfsexp

/-- Rounds that leave the cursor where it is go down in this rank. -/
@[simp] def rank : State → Nat
  | .s3 | .s5 | .s8 | .s10 | .s11 | .s14 | .unknown => 0
  | .s1 => 1
  | .s4 | .s6 | .s9 | .s15 => 2
  | .s2 | .s7 | .s12 | .s13 => 3

lemma rank_le (s : State) : rank s ≤ 3 := by cases s <;> decide

/-- The `switch` has a case for the state, and a blob that is being read has room for what is
missing. -/
def Sane (l : Regs) : Prop :=
  l.state ≠ .unknown ∧ (l.state = .s15 → l.binread ≤ l.binexpected ∧
    ∀ data, l.bindata = some data → data.length = l.binexpected)

/-- The states in which there is nothing to ask of a blob. -/
@[simp] def tame : State → Bool
  | .s15 | .unknown => false
  | _ => true

lemma sane_of_tame {l : Regs} (h : tame l.state = true) : Sane l := by
  refine ⟨?_, ?_⟩
  · intro hs
    simp [hs] at h
  · intro hs
    simp [hs] at h

/-- From `l`, the cursor got to `t` over at most `d` bytes, with the locals `r`. -/
structure Onward (l : Locals) (d t : Nat) (r : Regs) : Prop where
  low : l.t ≤ t
  high : t ≤ l.t + d
  sane : Sane r

/-- The next call goes on where the cursor stands, or at the start of its own text. -/
def Marked (r : Return) : Prop := ∀ p, r.cc.lastPos = some p → p = r.cursor

lemma marked_of_some {r : Return} (h : r.cc.lastPos = some r.cursor) : Marked r := by
  intro p hp
  exact Option.some.inj (hp.symm.trans h)

/-- A return from `l` after at most `d` bytes. -/
structure OnwardReturn (l : Locals) (d : Nat) (r : Return) : Prop
    extends Onward l d r.cursor r.cc.toRegs where
  marked : Marked r

/-- A round from `l` that moves over at most `d` bytes, and goes down in rank if over none. -/
abbrev Moves (l : Locals) (d : Nat) : Exec Locals → Prop :=
  Post (fun l' => Onward l d l'.t l'.toRegs ∧ (l'.t = l.t → rank l'.state < rank l.state))
    (OnwardReturn l d) fun _ => True

/-- A piece of a round that leaves the cursor and the state alone. -/
abbrev Still (l : Locals) : Exec Locals → Prop :=
  Post (fun l' => l'.t = l.t ∧ l'.state = l.state)
    (fun r => r.cursor = l.t ∧ r.cc.state = l.state ∧ Marked r) fun _ => True

section Pieces

variable {env : Env} {l l₀ : Locals} {c : Byte} {d : Nat}

lemma Still.bind {x : Exec Locals} {f : Locals → Exec Locals} (hx : Still l x)
    (hf : ∀ l', l'.t = l.t → l'.state = l.state → Still l' (f l')) : Still l (x >>= f) := by
  refine Post.bind hx ?_
  rintro l' ⟨ht, hs⟩
  refine (hf l' ht hs).mono ?_ ?_
  · rintro l'' ⟨ht', hs'⟩
    exact ⟨ht'.trans ht, hs'.trans hs⟩
  · rintro r ⟨ht', hs', hmark⟩
    exact ⟨ht'.trans ht, hs'.trans hs, hmark⟩

/-- A still piece inside a round. -/
lemma Still.moves {x : Exec Locals} {f : Locals → Exec Locals} (hx : Still l x)
    (hlow : l₀.t ≤ l.t) (hhigh : l.t ≤ l₀.t + d) (hs : tame l.state = true)
    (hf : ∀ l', l'.t = l.t → l'.state = l.state → Moves l₀ d (f l')) : Moves l₀ d (x >>= f) := by
  have hx' : Post (fun l' => l'.t = l.t ∧ l'.state = l.state)
      (OnwardReturn l₀ d) (fun _ => True) x := by
    refine hx.mono (fun _ h => h) ?_
    rintro r ⟨ht, hs', hmark⟩
    exact ⟨⟨by omega, by omega, sane_of_tame (by rw [hs', hs])⟩, hmark⟩
  exact hx'.bind fun l' h => hf l' h.1 h.2

lemma still_ok {l' : Locals} (ht : l'.t = l.t) (hs : l'.state = l.state) :
    Still l (.ok l') := ⟨ht, hs⟩

lemma still_need : Still l (need env l) := by
  rw [need]
  split_ifs
  · exact ⟨rfl, rfl⟩
  · exact ⟨rfl, rfl, marked_of_some rfl⟩

lemma still_writeCur : Still l (writeCur c l) := by
  rw [writeCur]
  split_ifs
  · exact ⟨rfl, rfl⟩
  · trivial

lemma still_grow {keep : Bool} : Still l (grow env keep l) := by
  rw [grow]
  split_ifs
  · exact ⟨rfl, rfl⟩
  · exact ⟨rfl, rfl, marked_of_some rfl⟩
  · exact ⟨rfl, rfl, marked_of_some rfl⟩
  · exact ⟨rfl, rfl⟩

lemma still_store : Still l (store env c l) :=
  still_writeCur.bind fun _ _ _ => still_grow

lemma still_storeEsc : Still l (storeEsc env c l) :=
  still_writeCur.bind fun _ _ _ => still_grow

lemma still_emit (aty : AtomT) : Still l (emit env aty l) := by
  rw [emit]
  split_ifs
  · exact ⟨by simp, by simp⟩
  · exact ⟨by simp, by simp, marked_of_some rfl⟩

lemma still_closingQuote : Still l (closingQuote env l) := by
  rw [closingQuote]
  split_ifs
  · exact still_store
  · exact still_ok rfl rfl

lemma push_still (data : List Sexp) :
    (push env data l).t = l.t ∧ (push env data l).state = l.state := by
  rw [push]
  split_ifs <;> exact ⟨rfl, rfl⟩

lemma link_still {l' : Locals} (h : link l = some l') : l'.t = l.t ∧ l'.state = l.state := by
  rw [link_frame h]
  exact ⟨rfl, rfl⟩

lemma still_attachList : Still l (attachList env l) := by
  rw [attachList]
  split_ifs
  · refine Still.bind still_need ?_
    intro l' _ _
    exact push_still l'.sx
  · split
    · exact link_still ‹_›
    · trivial

lemma still_closeLevel : Still l (closeLevel l) := by
  rw [closeLevel]
  split
  · trivial
  · split
    · exact ⟨rfl, rfl, marked_of_some rfl⟩
    · split
      · trivial
      · exact ⟨rfl, rfl⟩

end Pieces

section Round

variable {env : Env} {l : Locals} {c : Byte}

/-- A round that steps over one byte. -/
lemma moves_step {l₀ l' : Locals} (ht : l'.t = l₀.t + 1) (hs : tame l'.state = true) :
    Moves l₀ 1 (.ok l') :=
  ⟨⟨by omega, by omega, sane_of_tame hs⟩, by omega⟩

/-- A round that only changes the state. -/
lemma moves_down {l₀ l' : Locals} (ht : l'.t = l₀.t) (hs : tame l'.state = true)
    (hr : rank l'.state < rank l₀.state) : Moves l₀ 1 (.ok l') :=
  ⟨⟨by omega, by omega, sane_of_tame hs⟩, fun _ => hr⟩

lemma moves_returnTree {l₀ : Locals} {d : Nat} (hlow : l₀.t ≤ l.t) (hhigh : l.t ≤ l₀.t + d) :
    Moves l₀ d (.error (returnTree l)) := by
  rw [returnTree]
  split
  · trivial
  · exact ⟨⟨hlow, hhigh, sane_of_tame rfl⟩, marked_of_some rfl⟩

lemma moves_state1 (hs : l.state = .s1) : Moves l 1 (state1 env c l) := by
  rw [state1]
  split_ifs
  · exact moves_step rfl (by simp [hs])
  · exact moves_step rfl (by simp)
  · exact moves_step (by simp) (by simp)
  · exact moves_down rfl (by simp) (by simp [hs])
  · exact moves_step rfl (by simp)
  · exact moves_step rfl (by simp)
  · refine still_writeCur.moves (Nat.le_refl _) (Nat.le_succ _) (by simp [hs]) ?_
    intro l₁ ht₁ hs₁
    refine still_grow.moves (by simp [ht₁]) (by simp [ht₁]) (by simp [hs₁, hs]) ?_
    intro l₂ ht₂ _
    refine moves_step (by simp [ht₂, ht₁]) ?_
    dsimp only
    split_ifs <;> simp

lemma moves_state2 (hs : l.state = .s2) : Moves l 1 (state2 env l) := by
  rw [state2]
  refine still_need.moves (Nat.le_refl _) (Nat.le_succ _) (by simp [hs]) ?_
  intro l₁ ht₁ hs₁
  refine still_attachList.moves (by simp [ht₁]) (by simp [ht₁]) (by simp [hs₁, hs]) ?_
  intro l₂ ht₂ hs₂
  refine still_need.moves (by simp [ht₂, ht₁]) (by simp [ht₂, ht₁]) (by simp [hs₂, hs₁, hs]) ?_
  intro l₃ ht₃ _
  exact moves_down (by simp [push_still, ht₃, ht₂, ht₁]) (by simp) (by simp [hs])

lemma moves_state3 (hs : l.state = .s3) : Moves l 1 (state3 l) := by
  rw [state3]
  split_ifs
  · exact ⟨⟨Nat.le_refl _, Nat.le_succ _, sane_of_tame rfl⟩, marked_of_some rfl⟩
  refine still_closeLevel.moves (by simp) (by simp) (by simp [hs]) ?_
  intro l' ht' _
  dsimp only
  split_ifs
  · exact moves_returnTree (by simp [ht']) (by simp [ht'])
  · exact moves_step (by simp [ht']) (by simp)

/-- The byte after a bare atom. -/
lemma moves_afterBare {l₀ : Locals} (ht : l.t = l₀.t) (hs : l₀.state = .s4) :
    Moves l₀ 1 (.ok (afterBare c l)) := by
  rw [afterBare]
  split_ifs
  · exact moves_step (by simp [ht]) (by simp)
  · exact moves_down ht (by simp) (by simp [hs])
  · exact moves_down ht (by simp) (by simp [hs])

lemma moves_endBare (hs : l.state = .s4) : Moves l 1 (endBare env c l) := by
  rw [endBare]
  refine still_writeCur.moves (Nat.le_refl _) (Nat.le_succ _) (by simp [hs]) ?_
  intro l₁ ht₁ hs₁
  refine still_need.moves (by simp [ht₁]) (by simp [ht₁]) (by simp [hs₁, hs]) ?_
  intro l₂ ht₂ hs₂
  refine (still_emit _).moves (by simp [ht₂, ht₁]) (by simp [ht₂, ht₁]) (by simp [hs₂, hs₁, hs]) ?_
  intro l₃ ht₃ _
  have ht : l₃.t = l.t := by simp [ht₃, ht₂, ht₁]
  cases hl : link l₃ with
  | none => exact ⟨⟨by simp [ht], by simp [ht], sane_of_tame rfl⟩, marked_of_some rfl⟩
  | some l₄ => exact moves_afterBare ((link_still hl).1.trans ht) hs

lemma moves_overwrite (hs : l.state = .s4) : Moves l 1 (overwrite c l) := by
  rw [overwrite]
  split
  · trivial
  · split_ifs
    · exact moves_step rfl (by simp [hs])
    · trivial

lemma moves_state4 (hs : l.state = .s4) : Moves l 1 (state4 env c l) := by
  rw [state4]
  split_ifs
  · exact moves_overwrite hs
  · refine still_storeEsc.moves (Nat.le_refl _) (Nat.le_succ _) (by simp [hs]) ?_
    intro l' ht' hs'
    exact moves_step (by simp [ht']) (by simp [hs', hs])
  · exact moves_endBare hs

lemma moves_endQuoted {l₀ : Locals} {d : Nat} (hlow : l₀.t ≤ l.t) (hhigh : l.t + 1 ≤ l₀.t + d)
    (hs : l.state = .s6) : Moves l₀ d (endQuoted env l) := by
  rw [endQuoted]
  refine still_closingQuote.moves hlow (by omega) (by simp [hs]) ?_
  intro l₁ ht₁ hs₁
  refine still_writeCur.moves (by omega) (by omega) (by simp [hs₁, hs]) ?_
  intro l₂ ht₂ hs₂
  refine still_need.moves (by simp; omega) (by simp; omega) (by simp [hs₂, hs₁, hs]) ?_
  intro l₃ ht₃ hs₃
  have ht : l₃.t = l.t := by simp [ht₃, ht₂, ht₁]
  have h6 : l₃.state = .s6 := by simp [hs₃, hs₂, hs₁, hs]
  refine (still_emit _).moves (by simp; omega) (by simp; omega) (by simp [h6]) ?_
  intro l₄ ht₄ hs₄
  have ht' : l₄.t = l.t := by simp [ht₄, ht]
  cases hl : link l₄ with
  | none => exact ⟨⟨by simp; omega, by simp; omega, sane_of_tame rfl⟩, marked_of_some rfl⟩
  | some l₅ =>
    obtain ⟨ht₅, hs₅⟩ := link_still hl
    exact ⟨⟨by simp; omega, by simp; omega, sane_of_tame (by simp [hs₅, hs₄, h6])⟩, by simp; omega⟩

lemma moves_state5Rest {l₀ : Locals} {d : Nat} (hlow : l₀.t ≤ l.t) (hhigh : l.t + 1 ≤ l₀.t + d)
    (hs : l.state = .s5) : Moves l₀ d (state5Rest env c l) := by
  rw [state5Rest]
  split_ifs
  · exact moves_endQuoted hlow hhigh rfl
  · refine still_store.moves hlow (by omega) (by simp [hs]) ?_
    intro l' ht' hs'
    exact ⟨⟨by simp; omega, by simp; omega, sane_of_tame (by simp [hs', hs])⟩, by simp; omega⟩

/-- The bytes state 5 may step over in a round. -/
def pairSteps (l : Locals) (c : Byte) : Nat :=
  if l.state = .s5 ∧ l.esc = true ∧ isEscapable c = true then 2 else 1

lemma moves_state5 (hs : l.state = .s5) : Moves l (pairSteps l c) (state5 env c l) := by
  rw [state5]
  split_ifs with he
  · rw [Bool.and_eq_true] at he
    have hd : pairSteps l c = 2 := if_pos ⟨hs, he.1, he.2⟩
    rw [hd, overwrite]
    split
    · trivial
    · split_ifs
      · rw [ok_bind, Env.read]
        split
        · exact moves_state5Rest (by simp) (by simp) hs
        · trivial
      · trivial
  · have hd : pairSteps l c = 1 := if_neg fun h => he (by simp [h.2.1, h.2.2])
    rw [hd]
    exact moves_state5Rest (Nat.le_refl _) (Nat.le_refl _) hs

lemma moves_state7 (hs : l.state = .s7) : Moves l 1 (state7 env c l) := by
  rw [state7]
  split_ifs
  · refine still_store.moves (by simp) (by simp) (by simp) ?_
    intro l' ht' hs'
    exact moves_step (by simp [ht']) (by simp [hs'])
  · exact moves_down rfl (by simp) (by simp [hs])
  · exact moves_down rfl (by simp) (by simp [hs])

/-- State 9 runs in a round of its own, or behind the store of state 8. -/
lemma moves_state9 {l₀ : Locals} (hlow : l₀.t ≤ l.t) (hhigh : l.t ≤ l₀.t + 1)
    (hr : l.t = l₀.t → l₀.state = .s9) : Moves l₀ 1 (state9 env l) := by
  have hdown : ∀ s : State, rank s < rank .s9 → l.t = l₀.t → rank s < rank l₀.state :=
    fun s hlt ht => by rwa [hr ht]
  rw [state9]
  split_ifs
  · rw [endQuotedList]
    refine still_writeCur.moves hlow hhigh (by simp) ?_
    intro l₁ ht₁ hs₁
    refine still_need.moves (by simp [ht₁, hlow]) (by simp [ht₁, hhigh]) (by simp [hs₁]) ?_
    intro l₂ ht₂ hs₂
    refine (still_emit _).moves
      (by simp [ht₂, ht₁, hlow]) (by simp [ht₂, ht₁, hhigh]) (by simp [hs₂, hs₁]) ?_
    intro l₃ ht₃ hs₃
    have ht : l₃.t = l.t := by simp [ht₃, ht₂, ht₁]
    have h1 : l₃.state = .s1 := by simp [hs₃, hs₂, hs₁]
    cases hl : link l₃ with
    | none => exact ⟨⟨by simp [ht, hlow], by simp [ht, hhigh], sane_of_tame rfl⟩, marked_of_some rfl⟩
    | some l₄ =>
      obtain ⟨ht₄, hs₄⟩ := link_still hl
      refine ⟨⟨by omega, by omega, sane_of_tame (by simp [hs₄, h1])⟩, fun h => ?_⟩
      rw [hs₄, h1]
      exact hdown .s1 (by decide) (by omega)
  · exact ⟨⟨hlow, hhigh, sane_of_tame rfl⟩, hdown .s8 (by decide)⟩

lemma countParen_t : (countParen c l).t = l.t := by
  rw [countParen]
  split_ifs <;> rfl

lemma countParen_tame (hs : l.state = .s8) : tame (countParen c l).state = true := by
  rw [countParen]
  split_ifs <;> simp [hs]

lemma moves_state8 (hs : l.state = .s8) : Moves l 1 (state8 env c l) := by
  have htame : tame (countParen c l).state = true := countParen_tame hs
  rw [state8]
  refine still_storeEsc.moves (by simp [countParen_t]) (by simp [countParen_t]) htame ?_
  intro l' ht' hs'
  have ht : l'.t = l.t := ht'.trans countParen_t
  dsimp only
  split_ifs
  · exact moves_state9 (by simp [ht]) (by simp [ht]) (by simp [ht])
  · exact moves_step (by simp [ht]) (by simpa [hs'] using htame)

lemma moves_state10 (hs : l.state = .s10) : Moves l 1 (state10 env c l) := by
  rw [state10]
  split_ifs
  all_goals
    refine still_storeEsc.moves (by simp) (by simp) (by simp [hs]) ?_
    intro l' ht' hs'
    exact moves_step (by simp [ht']) (by simp [hs', hs])

lemma moves_state11 : Moves l 1 (state11 c l) := by
  refine moves_step rfl ?_
  dsimp only
  split_ifs <;> simp

lemma moves_state12 (hs : l.state = .s12) : Moves l 1 (state12 env c l) := by
  rw [state12]
  split_ifs
  · refine still_storeEsc.moves (by simp) (by simp) (by simp [hs]) ?_
    intro l' ht' _
    exact moves_step (by simp [ht']) (by simp)
  · exact moves_down rfl (by simp) (by simp [hs])

lemma moves_state13 (hs : l.state = .s13) : Moves l 1 (state13 env c l) := by
  rw [state13]
  split_ifs
  · refine still_storeEsc.moves (by simp) (by simp) (by simp [hs]) ?_
    intro l' ht' _
    exact moves_step (by simp [ht']) (by simp)
  · exact moves_down rfl (by simp) (by simp [hs])

lemma moves_endSize {l₀ : Locals} (ht : l.t = l₀.t + 1) (hs : l.state = .s15) :
    Moves l₀ 1 (endSize env l) := by
  have hlow : l₀.t ≤ l.t := by omega
  have hhigh : l.t ≤ l₀.t + 1 := by omega
  rw [endSize, writeCur]
  split_ifs
  · rw [ok_bind]
    dsimp only
    split_ifs
    · rw [need]
      split_ifs
      · exact ⟨⟨hlow, hhigh, by simp [Sane, hs]⟩, by simp [ht]⟩
      · exact ⟨⟨hlow, hhigh, by simp [Sane, hs]⟩, marked_of_some rfl⟩
    · exact ⟨⟨hlow, hhigh, by simp [Sane, hs]⟩, by simp [ht]⟩
  · trivial

lemma moves_state14 (hs : l.state = .s14) : Moves l 1 (state14 env c l) := by
  rw [state14]
  split_ifs
  · exact moves_endSize rfl rfl
  · refine still_storeEsc.moves (by simp) (by simp) (by simp [hs]) ?_
    intro l' ht' hs'
    exact moves_step (by simp [ht']) (by simp [hs', hs])

/-- The bytes state 15 may step over in a round. -/
def blobSteps (env : Env) (l : Locals) : Nat := if l.t < env.buf.length then 1 else 0

/-- The blob takes a byte or is complete. -/
lemma readBlob_moves (hsane : Sane l.toRegs) (hs : l.state = .s15) :
    Post (fun l' => l.t ≤ l'.t ∧ l'.t ≤ l.t + blobSteps env l ∧ l'.state = .s15 ∧ Sane l'.toRegs ∧
        (l'.t = l.t → l'.binread = l'.binexpected))
      (fun _ => False) (fun _ => True) (readBlob env l) := by
  obtain ⟨hle, hdata⟩ := hsane.2 hs
  rw [readBlob]
  split_ifs with hb
  · rw [Env.read]
    cases hb' : env.buf[l.t]? with
    | none => trivial
    | some c =>
      obtain ⟨hlt, -⟩ := List.getElem?_eq_some_iff.mp hb'
      cases hd : l.bindata with
      | none => trivial
      | some data =>
        have hlen : data.length = l.binexpected := hdata data hd
        simp only [ok_bind]
        split_ifs
        · refine ⟨by simp, by simp [blobSteps, hlt], hs, ?_, by simp⟩
          simp [Sane, hs, hlen]
          omega
        · trivial
  · exact ⟨Nat.le_refl _, Nat.le_add_right _ _, hs, hsane, fun _ => by omega⟩

lemma moves_endBlob {l₀ : Locals} {d : Nat} (hlow : l₀.t ≤ l.t) (hhigh : l.t ≤ l₀.t + d)
    (hsane : Sane l.toRegs) (hs₀ : l₀.state = .s15) : Moves l₀ d (endBlob env l) := by
  rw [endBlob, need]
  split_ifs
  · rw [ok_bind]
    dsimp only
    rw [link]
    have hdown : rank .s1 < rank l₀.state := by rw [hs₀]; decide
    split
    · exact ⟨⟨by simp [hlow], by simp [hhigh], sane_of_tame rfl⟩, fun _ => hdown⟩
    · exact ⟨⟨by simp [hlow], by simp [hhigh], sane_of_tame rfl⟩, fun _ => hdown⟩
  · exact ⟨⟨hlow, hhigh, hsane⟩, marked_of_some rfl⟩

lemma moves_state15 (hsane : Sane l.toRegs) (hs : l.state = .s15) :
    Moves l (blobSteps env l) (state15 env l) := by
  rw [state15]
  have hread := @readBlob_moves env l hsane hs
  refine Post.bind (hread.mono (fun _ h => h) fun _ h => h.elim) ?_
  rintro l' ⟨hlow, hhigh, hs', hsane', hdone⟩
  split_ifs with hb
  · exact moves_endBlob hlow hhigh hsane' hs
  · exact ⟨⟨hlow, hhigh, hsane'⟩, fun ht => absurd (hdone ht) hb⟩

lemma moves_finish (hsane : Sane l.toRegs) : Moves l 0 (.error (finish env l)) := by
  rw [finish]
  split_ifs
  · exact moves_returnTree (Nat.le_refl _) (Nat.le_refl _)
  · split
    · trivial
    · refine ⟨⟨Nat.le_refl _, Nat.le_refl _, hsane⟩, ?_⟩
      intro p hp
      dsimp only at hp
      split_ifs at hp
      exact (Option.some.inj hp).symm

lemma moves_switch (hs15 : l.state ≠ .s15) (hsane : Sane l.toRegs) :
    Moves l (pairSteps l c) (switch env c l) := by
  have hone : l.state ≠ .s5 → pairSteps l c = 1 := fun h => if_neg fun h' => h h'.1
  rw [switch]
  cases hs : l.state with
  | s5 => exact moves_state5 hs
  | s1 => exact hone (by simp [hs]) ▸ moves_state1 hs
  | s2 => exact hone (by simp [hs]) ▸ moves_state2 hs
  | s3 => exact hone (by simp [hs]) ▸ moves_state3 hs
  | s4 => exact hone (by simp [hs]) ▸ moves_state4 hs
  | s6 => exact hone (by simp [hs]) ▸ moves_down rfl rfl (by simp [hs])
  | s7 => exact hone (by simp [hs]) ▸ moves_state7 hs
  | s8 => exact hone (by simp [hs]) ▸ moves_state8 hs
  | s9 => exact hone (by simp [hs]) ▸ moves_state9 (by simp) (by simp) fun _ => hs
  | s10 => exact hone (by simp [hs]) ▸ moves_state10 hs
  | s11 => exact hone (by simp [hs]) ▸ moves_state11
  | s12 => exact hone (by simp [hs]) ▸ moves_state12 hs
  | s13 => exact hone (by simp [hs]) ▸ moves_state13 hs
  | s14 => exact hone (by simp [hs]) ▸ moves_state14 hs
  | s15 => exact absurd hs hs15
  | unknown => exact absurd hs hsane.1

/-- The bytes a round may step over. -/
def headSteps (env : Env) (l : Locals) : Nat :=
  if l.t = env.len then 0
  else if l.state = .s15 then blobSteps env l
  else
    match env.buf[l.t]? with
    | some c => if c = nul then 0 else pairSteps l c
    | none => 0

/-- What one round does to the cursor, for both parsers: `finish` is what they do after the loop,
and `body15` and `body` are their `switch`. -/
lemma moves_head {finish : Stop} {body15 : Exec Locals} {body : Byte → Exec Locals}
    (hfinish : Moves l 0 (.error finish))
    (hbody15 : l.state = .s15 → Moves l (blobSteps env l) body15)
    (hbody : ∀ c, l.state ≠ .s15 → Moves l (pairSteps l c) (body c)) :
    Moves l (headSteps env l)
      (if l.state = .s15 then if l.t = env.len then .error finish else body15
      else do
        let c ← env.read l.t
        if c = nul ∨ l.t = env.len then .error finish else body c) := by
  rw [headSteps]
  by_cases h15 : l.state = .s15
  · rw [if_pos h15, if_pos h15]
    by_cases ht : l.t = env.len
    · rw [if_pos ht, if_pos ht]
      exact hfinish
    · rw [if_neg ht, if_neg ht]
      exact hbody15 h15
  · rw [if_neg h15, if_neg h15, Env.read]
    cases hb : env.buf[l.t]? with
    | none => trivial
    | some c =>
      rw [ok_bind]
      by_cases ht : l.t = env.len
      · rw [if_pos ht, if_pos (.inr ht)]
        exact hfinish
      · rw [if_neg ht]
        dsimp only
        by_cases hc : c = nul
        · rw [if_pos hc, if_pos (.inl hc)]
          exact hfinish
        · rw [if_neg hc, if_neg (by simp [hc, ht])]
          exact hbody c h15

lemma moves_cparseHead (hsane : Sane l.toRegs) :
    Moves l (headSteps env l) (cparseHead env l) :=
  moves_head (moves_finish hsane) (moves_state15 hsane) fun _ h15 => moves_switch h15 hsane

end Round

end Sfsexp.Proofs
