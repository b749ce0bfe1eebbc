import Sfsexp.Proofs.EventCursor

/-!
# The main loop ends inside its buffer

Every call ends. Its cursor stays inside the buffer, and outside a binary blob it does not step over
a NUL, as long as no escape pair inside double quotes ends where the buffer or the string ends:
state 5 handles the byte behind the pair without asking whether there is one.
-/

namespace Sfsexp.Proofs

open Sfsexp

/-- The next byte ends an escape pair inside double quotes, and the buffer or the string ends behind
it. -/
def PairAtEnd (env : Env) (l : Locals) : Prop :=
  l.state = .s5 ∧ l.esc = true ∧ ∃ c, env.buf[l.t]? = some c ∧ isEscapable c = true ∧
    (l.t + 1 = env.len ∨ env.buf[l.t + 1]? = some nul)

/-- A round that does not handle a byte behind the end. -/
def StopsAtEnd (env : Env) (l : Locals) : Prop := ¬ PairAtEnd env l

section Steps

variable {env : Env} {l : Locals}

lemma lt_length_of_headSteps (h : 0 < headSteps env l) : l.t < env.buf.length := by
  unfold headSteps at h
  split_ifs at h with ht h15
  · simp at h
  · unfold blobSteps at h
    split_ifs at h with hlt
    · exact hlt
    · simp at h
  · split at h
    · rename_i c hb
      exact (List.getElem?_eq_some_iff.mp hb).1
    · simp at h

lemma headSteps_le_two (env : Env) (l : Locals) : headSteps env l ≤ 2 := by
  unfold headSteps blobSteps pairSteps
  cases env.buf[l.t]? with
  | none => split_ifs <;> simp
  | some c =>
    dsimp only
    split_ifs <;> omega

/-- The second of two bytes belongs to an escape pair. -/
lemma pair_of_headSteps (h : headSteps env l = 2) :
    l.state = .s5 ∧ l.esc = true ∧ ∃ c, env.buf[l.t]? = some c ∧ isEscapable c = true := by
  unfold headSteps blobSteps at h
  split_ifs at h <;> try omega
  split at h
  · rename_i c hb
    unfold pairSteps at h
    split_ifs at h with hc hp
    · exact ⟨hp.1, hp.2.1, c, hb, hp.2.2⟩
    · omega
  · simp at h

lemma add_headSteps_le (hle : l.t ≤ env.len) (hw : StopsAtEnd env l) :
    l.t + headSteps env l ≤ env.len := by
  by_cases ht : l.t = env.len
  · simp [headSteps, ht]
  have hcases := headSteps_le_two env l
  by_cases htwo : headSteps env l = 2
  · obtain ⟨hs, he, c, hb, hq⟩ := pair_of_headSteps htwo
    have hne : l.t + 1 ≠ env.len := fun h => hw ⟨hs, he, c, hb, hq, .inl h⟩
    omega
  · omega

/-- No NUL is stepped over outside a blob. -/
lemma ne_nul_of_headSteps (hw : StopsAtEnd env l) (h15 : l.state ≠ .s15) {i : Nat}
    (hlow : l.t ≤ i) (hhigh : i < l.t + headSteps env l) : env.buf[i]? ≠ some nul := by
  have htwo := headSteps_le_two env l
  by_cases hi : i = l.t
  · subst hi
    intro hnul
    have h0 : headSteps env l = 0 := by simp [headSteps, h15, hnul]
    omega
  · have h2 : headSteps env l = 2 := by omega
    obtain ⟨hs, he, c, hb, hq⟩ := pair_of_headSteps h2
    have hi' : i = l.t + 1 := by omega
    rw [hi']
    exact fun hnul => hw ⟨hs, he, c, hb, hq, .inr hnul⟩

end Steps

section Calls

variable {k : Call} {cc : Pcont} {l : Locals}

lemma moves_callHead (hsane : Sane l.toRegs) :
    Moves l (headSteps k.env l) (k.head cc l) := by
  rw [Call.head]
  split_ifs
  · exact EventEnv.moves_eparseHead hsane
  · exact moves_cparseHead hsane

lemma sane_of_reaches {C : Locals → Prop} {l' : Locals} (hsane : Sane l.toRegs)
    (h : Loop.ReachesWhile (k.head cc) C l l') : Sane l'.toRegs := by
  have hstep : ∀ l₁ l₂ : Locals, Sane l₁.toRegs → C l₁ → k.head cc l₁ = .ok l₂ →
      Sane l₂.toRegs := by
    intro l₁ l₂ hs _ hnext
    have hm := @moves_callHead k cc l₁ hs
    rw [hnext] at hm
    exact hm.1.sane
  exact Loop.invariant_of_step_while hstep hsane h

lemma sane_of_session {C : Env → Locals → Prop} (h : Session C cc) : Sane cc.toRegs := by
  induction h with
  | start h =>
    rw [(initContinuation_eq_new h).1]
    exact sane_of_tame rfl
  | configure _ mode handlers ih => exact ih
  | @call cc k _ l _ _ hrun _ hret ih =>
    have hm := @moves_callHead k cc l (sane_of_reaches ih hrun)
    rw [hret] at hm
    exact hm.sane

/-- What is left to do: the bytes ahead, and the rounds that can be made without a byte. -/
def work (env : Env) (l : Locals) : Nat := 4 * (env.buf.length - l.t) + rank l.state

lemma work_lt_fuel (env : Env) (l : Locals) : work env l < fuel env := by
  have := rank_le l.state
  unfold work fuel
  omega

/-- Every round lowers the work. -/
lemma work_of_head {l' : Locals} (hsane : Sane l.toRegs) (h : k.head cc l = .ok l') :
    Sane l'.toRegs ∧ work k.env l' < work k.env l := by
  have hm := @moves_callHead k cc l hsane
  rw [h] at hm
  obtain ⟨⟨hlow, hhigh, hsane'⟩, hrank⟩ := hm
  refine ⟨hsane', ?_⟩
  unfold work
  by_cases ht : l'.t = l.t
  · have := hrank ht
    omega
  · have hpos : 0 < headSteps k.env l := by omega
    have := lt_length_of_headSteps hpos
    have := rank_le l'.state
    omega

lemma run_ends (hsane : Sane l.toRegs) :
    ∃ s, Loop.run (k.head cc) (fuel k.env) l = some s :=
  Loop.run_of_measure (work k.env) (fun _ _ => work_of_head) hsane (work_lt_fuel k.env l)

lemma run_eq_of_halts (hsane : Sane l.toRegs) {s : Stop} (h : Loop.Halts (k.head cc) l s) :
    Loop.run (k.head cc) (fuel k.env) l = some s :=
  (Loop.run_eq_some_iff_halts (work k.env) (fun _ _ => work_of_head) hsane
    (work_lt_fuel k.env l)).mpr h

/-- What the loop of the tree-building parser leaves with is what the call returns. -/
lemma cparseSexp_eq_of_halts (hmode : cc.mode ≠ .eventsOnly) (hsane : Sane cc.toRegs) {s : Stop}
    (h : Loop.Halts (cparseHead k.env) (cc.enter 0) s) :
    cparseSexp k.setup (some k.buf) k.len (some cc) k.errno = Result.ofStop (some s) := by
  have hhead : k.head cc = cparseHead k.env := by rw [Call.head, if_neg hmode]
  have hsane' : Sane (cc.enter 0).toRegs := hsane
  rw [cparseSexp_eq_run, run_eq_of_halts hsane' (by rwa [hhead])]

/-- The cursor stays inside the buffer. -/
lemma cursor_le_of_reaches (hsane : Sane l.toRegs) (hle : l.t ≤ k.len) {l' : Locals}
    (h : Loop.ReachesWhile (k.head cc) (StopsAtEnd k.env) l l') : l'.t ≤ k.len := by
  have hstep : ∀ l₁ l₂ : Locals, Sane l₁.toRegs ∧ l₁.t ≤ k.len → StopsAtEnd k.env l₁ →
      k.head cc l₁ = .ok l₂ → Sane l₂.toRegs ∧ l₂.t ≤ k.len := by
    rintro l₁ l₂ ⟨hs, hle⟩ hw hnext
    have hm := @moves_callHead k cc l₁ hs
    rw [hnext] at hm
    have hfar := add_headSteps_le hle hw
    have hhigh := hm.1.high
    exact ⟨hm.1.sane, Nat.le_trans hhigh hfar⟩
  exact (Loop.invariant_of_step_while hstep ⟨hsane, hle⟩ h).2

end Calls

end Sfsexp.Proofs
