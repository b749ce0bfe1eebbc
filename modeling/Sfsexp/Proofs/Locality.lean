import Sfsexp.Proofs.Termination

/-!
# What a call reads

A call that returns does the same on any memory that agrees with its own up to the place its cursor
gets to, so the bytes behind the buffer and behind the first NUL outside a blob do not matter.
-/

namespace Sfsexp.Proofs

open Sfsexp

section Memory

variable {env : Env} {buf' : List Byte} {l : Locals} {c : Byte}

lemma read_congr {t : Nat} (h : buf'[t]? = env.buf[t]?) :
    Env.read { env with buf := buf' } t = env.read t := by
  simp only [Env.read, h]

/-- Behind an escape pair, state 5 has moved on. -/
lemma state5_pair_low (hs : l.state = .s5) (hp : (l.esc && isEscapable c) = true) :
    Post (fun l' => l.t + 1 ≤ l'.t) (fun r => l.t + 1 ≤ r.cursor) (fun _ => True)
      (state5 env c l) := by
  rw [state5, if_pos hp, overwrite]
  split
  · trivial
  · split_ifs
    · rw [ok_bind, Env.read]
      split
      · refine Post.mono (moves_state5Rest (Nat.le_refl _) (Nat.le_refl _) hs) ?_ ?_
        · exact fun l' h => h.1.low
        · exact fun r h => h.low
      · trivial
    · trivial

lemma state5_congr (h : (l.esc && isEscapable c) = true → buf'[l.t + 1]? = env.buf[l.t + 1]?) :
    state5 { env with buf := buf' } c l = state5 env c l := by
  rw [state5, state5]
  by_cases hp : (l.esc && isEscapable c) = true
  · rw [if_pos hp, if_pos hp, overwrite]
    split
    · rfl
    · split_ifs
      · rw [ok_bind, ok_bind, read_congr (h hp)]
        rfl
      · rfl
  · rw [if_neg hp, if_neg hp]
    rfl

lemma switch_congr (h15 : l.state ≠ .s15)
    (h : l.state = .s5 → (l.esc && isEscapable c) = true →
      buf'[l.t + 1]? = env.buf[l.t + 1]?) :
    switch { env with buf := buf' } c l = switch env c l := by
  rw [switch, switch]
  cases hs : l.state with
  | s5 => exact state5_congr (h hs)
  | s15 => exact absurd hs h15
  | _ => rfl

lemma state15_congr (h : buf'[l.t]? = env.buf[l.t]?) :
    state15 { env with buf := buf' } l = state15 env l := by
  have hread : readBlob { env with buf := buf' } l = readBlob env l := by
    rw [readBlob, readBlob, read_congr h]
  rw [state15, state15, hread]
  rfl

/-- The code after the loop only asks whether the byte at the cursor is a NUL, and not even that
at the end of the buffer. -/
lemma finish_congr (h : buf'[l.t]? = env.buf[l.t]? ∨
      (l.t = env.len ∧ l.t < buf'.length ∧ l.t < env.buf.length)) :
    finish { env with buf := buf' } l = finish env l := by
  rw [finish, finish]
  split_ifs
  · rfl
  · rcases h with h | ⟨ht, hlt, hlt'⟩
    · rw [h]
    · rw [List.getElem?_eq_getElem hlt, List.getElem?_eq_getElem hlt']
      simp [ht]

end Memory

namespace EventEnv

open Sfsexp.EventEnv

variable {env : EventEnv} {buf' : List Byte} {l : Locals} {c : Byte}

lemma state5_pair_low (hs : l.state = .s5) (hp : (l.esc && isEscapable c) = true) :
    Post (fun l' => l.t + 1 ≤ l'.t) (fun r => l.t + 1 ≤ r.cursor) (fun _ => True)
      (env.state5 c l) := by
  rw [EventEnv.state5, if_pos hp, overwrite]
  split
  · trivial
  · split_ifs
    · rw [ok_bind, Env.read]
      split
      · refine Post.mono (moves_state5Rest (Nat.le_refl _) (Nat.le_refl _) hs) ?_ ?_
        · exact fun l' h => h.1.low
        · exact fun r h => h.low
      · trivial
    · trivial

lemma state5_congr (h : (l.esc && isEscapable c) = true → buf'[l.t + 1]? = env.buf[l.t + 1]?) :
    EventEnv.state5 { env with buf := buf' } c l = env.state5 c l := by
  rw [EventEnv.state5, EventEnv.state5]
  by_cases hp : (l.esc && isEscapable c) = true
  · rw [if_pos hp, if_pos hp, overwrite]
    split
    · rfl
    · split_ifs
      · rw [ok_bind, ok_bind, Env.read, Env.read, h hp]
        rfl
      · rfl
  · rw [if_neg hp, if_neg hp]
    rfl

lemma switch_congr (h15 : l.state ≠ .s15)
    (h : l.state = .s5 → (l.esc && isEscapable c) = true →
      buf'[l.t + 1]? = env.buf[l.t + 1]?) :
    EventEnv.switch { env with buf := buf' } c l = env.switch c l := by
  rw [EventEnv.switch, EventEnv.switch]
  cases hs : l.state with
  | s5 => exact state5_congr (h hs)
  | s15 => exact absurd hs h15
  | _ => rfl

lemma state15_congr (h : buf'[l.t]? = env.buf[l.t]?) :
    EventEnv.state15 { env with buf := buf' } l = env.state15 l := by
  have hread : EventEnv.readBlob { env with buf := buf' } l = env.readBlob l := by
    rw [EventEnv.readBlob, EventEnv.readBlob, Env.read, Env.read, h]
  rw [EventEnv.state15, EventEnv.state15, hread]

lemma finish_congr (h : buf'[l.t]? = env.buf[l.t]? ∨
      (l.t = env.len ∧ l.t < buf'.length ∧ l.t < env.buf.length)) :
    EventEnv.finish { env with buf := buf' } l = env.finish l := by
  rw [EventEnv.finish, EventEnv.finish]
  split_ifs
  · rfl
  · rcases h with h | ⟨ht, hlt, hlt'⟩
    · rw [h]
      rfl
    · rw [List.getElem?_eq_getElem hlt, List.getElem?_eq_getElem hlt']
      simp [ht, EventEnv.give]

end EventEnv

/-- `buf'` and `env.buf` hold the same bytes where a round from `l` looks. -/
structure SameAhead (env : Env) (buf' : List Byte) (l : Locals) : Prop where
  cells : env.len < env.buf.length
  cells' : env.len < buf'.length
  le : l.t ≤ env.len
  next : l.t < env.len → buf'[l.t]? = env.buf[l.t]?
  pair : ∀ c, l.t ≠ env.len → env.buf[l.t]? = some c → l.state = .s5 →
    (l.esc && isEscapable c) = true → buf'[l.t + 1]? = env.buf[l.t + 1]?

section Head

variable {buf' : List Byte} {l : Locals}

/-- The frame of a round, for both parsers. -/
lemma head_congr {env : Env} (h : SameAhead env buf' l) {finish finish' : Stop}
    {body15 body15' : Exec Locals} {body body' : Byte → Exec Locals}
    (hfinish : finish' = finish)
    (hbody15 : buf'[l.t]? = env.buf[l.t]? → body15' = body15)
    (hbody : ∀ c, l.t ≠ env.len → env.buf[l.t]? = some c → l.state ≠ .s15 → body' c = body c) :
    (if l.state = .s15 then if l.t = env.len then (.error finish' : Exec Locals) else body15'
      else do
        let c ← Env.read { env with buf := buf' } l.t
        if c = nul ∨ l.t = env.len then .error finish' else body' c) =
    (if l.state = .s15 then if l.t = env.len then .error finish else body15
      else do
        let c ← env.read l.t
        if c = nul ∨ l.t = env.len then .error finish else body c) := by
  rw [hfinish]
  by_cases ht : l.t = env.len
  · obtain ⟨c, hc⟩ : ∃ c, env.buf[l.t]? = some c := by
      rw [ht]
      exact ⟨_, List.getElem?_eq_getElem h.cells⟩
    obtain ⟨c', hc'⟩ : ∃ c, buf'[l.t]? = some c := by
      rw [ht]
      exact ⟨_, List.getElem?_eq_getElem h.cells'⟩
    rw [Env.read, Env.read]
    simp only [hc, hc', ok_bind, if_pos ht, if_pos (Or.inr ht)]
  · have hlt : l.t < env.len := Nat.lt_of_le_of_ne h.le ht
    have hnext := h.next hlt
    by_cases h15 : l.state = .s15
    · rw [if_pos h15, if_pos h15, if_neg ht, if_neg ht, hbody15 hnext]
    · rw [if_neg h15, if_neg h15, read_congr hnext, Env.read]
      cases hc : env.buf[l.t]? with
      | none => rfl
      | some c => rw [ok_bind, ok_bind, hbody c ht hc h15]

lemma cparseHead_congr {env : Env} (h : SameAhead env buf' l) :
    cparseHead { env with buf := buf' } l = cparseHead env l := by
  have hat : buf'[l.t]? = env.buf[l.t]? ∨
      (l.t = env.len ∧ l.t < buf'.length ∧ l.t < env.buf.length) := by
    by_cases ht : l.t = env.len
    · exact .inr ⟨ht, by rw [ht]; exact h.cells', by rw [ht]; exact h.cells⟩
    · exact .inl (h.next (Nat.lt_of_le_of_ne h.le ht))
  exact head_congr h (finish_congr hat) state15_congr
    fun c ht hc h15 => switch_congr h15 (h.pair c ht hc)

lemma EventEnv.eparseHead_congr {env : EventEnv} (h : SameAhead env.toEnv buf' l) :
    Sfsexp.EventEnv.eparseHead { env with buf := buf' } l = env.eparseHead l := by
  have hat : buf'[l.t]? = env.buf[l.t]? ∨
      (l.t = env.len ∧ l.t < buf'.length ∧ l.t < env.buf.length) := by
    by_cases ht : l.t = env.len
    · exact .inr ⟨ht, by rw [ht]; exact h.cells', by rw [ht]; exact h.cells⟩
    · exact .inl (h.next (Nat.lt_of_le_of_ne h.le ht))
  exact head_congr h (EventEnv.finish_congr hat) EventEnv.state15_congr
    fun c ht hc h15 => EventEnv.switch_congr h15 (h.pair c ht hc)

lemma callHead_congr {k : Call} {cc : Pcont} (h : SameAhead k.env buf' l) :
    Call.head { k with buf := buf' } cc l = k.head cc l := by
  rw [Call.head, Call.head]
  split_ifs
  · exact @EventEnv.eparseHead_congr buf' l { toEnv := k.env, cc := cc, errno := k.errno } h
  · exact cparseHead_congr h

/-- A pair that is escaped moves the cursor, whichever parser reads it. -/
lemma pair_low {k : Call} {cc : Pcont} {c : Byte} (hle : l.t ≠ k.len) (hb : k.buf[l.t]? = some c)
    (hs : l.state = .s5) (hp : (l.esc && isEscapable c) = true) :
    Post (fun l' => l.t + 1 ≤ l'.t) (fun r => l.t + 1 ≤ r.cursor) (fun _ => True)
      (k.head cc l) := by
  have hc : ¬ (c = nul ∨ l.t = k.env.len) := by
    rintro (rfl | h)
    · rw [Bool.and_eq_true] at hp
      exact absurd hp.2 (by decide)
    · exact hle h
  have hb' : k.env.buf[l.t]? = some c := hb
  rw [Call.head]
  split_ifs
  · rw [EventEnv.eparseHead, if_neg (by simp [hs]), Env.read]
    simp only [hb', ok_bind, if_neg hc, EventEnv.switch, hs]
    exact EventEnv.state5_pair_low hs hp
  · rw [cparseHead, if_neg (by simp [hs]), Env.read]
    simp only [hb', ok_bind, if_neg hc, switch, hs]
    exact state5_pair_low hs hp

/-- A call that returns does the same on any memory that agrees with its own up to the place the
cursor gets to. -/
lemma halts_of_agree {k : Call} {cc : Pcont} {l' : Locals} {r : Return}
    (hcells : k.len < k.buf.length) (hcells' : k.len < buf'.length)
    (hagree : ∀ i, i ≤ r.cursor → i < k.len → buf'[i]? = k.buf[i]?)
    (hsane : Sane l.toRegs) (hle : l.t ≤ k.len)
    (hrun : Loop.ReachesWhile (k.head cc) (StopsAtEnd k.env) l l') (hlast : StopsAtEnd k.env l')
    (hret : k.head cc l' = .error (.ret r)) :
    l.t ≤ r.cursor ∧ Loop.Halts (Call.head { k with buf := buf' } cc) l (.ret r) := by
  have hahead : ∀ l₁ : Locals, l₁.t ≤ k.len → StopsAtEnd k.env l₁ → l₁.t ≤ r.cursor →
      (∀ c, l₁.t ≠ k.len → k.buf[l₁.t]? = some c → l₁.state = .s5 →
        (l₁.esc && isEscapable c) = true → l₁.t + 1 ≤ r.cursor) →
      SameAhead k.env buf' l₁ := by
    intro l₁ hle hw hcur hpair
    refine ⟨hcells, hcells', hle, fun hlt => hagree _ hcur hlt, ?_⟩
    intro c ht hb hs hp
    have hp' := hp
    rw [Bool.and_eq_true] at hp'
    have hend : l₁.t + 1 ≠ k.len := fun h => hw ⟨hs, hp'.1, c, hb, hp'.2, .inl h⟩
    have hne : l₁.t ≠ k.len := ht
    exact hagree _ (hpair c ht hb hs hp) (by omega)
  induction hrun using Relation.ReflTransGen.head_induction_on with
  | refl =>
    have hm := @moves_callHead k cc l' hsane
    rw [hret] at hm
    refine ⟨hm.low, Loop.halts_of_exit ?_⟩
    rw [callHead_congr, hret]
    refine hahead l' hle hlast hm.low ?_
    intro c ht hb hs hp
    have hlow := @pair_low l' k cc c ht hb hs hp
    rwa [hret] at hlow
  | @head l₁ l₂ hstep _ ih =>
    obtain ⟨hw, hnext⟩ := hstep
    have hm := @moves_callHead k cc l₁ hsane
    rw [hnext] at hm
    obtain ⟨⟨hlow, hhigh, hsane₂⟩, -⟩ := hm
    obtain ⟨hcur, hhalts⟩ := ih hsane₂ (Nat.le_trans hhigh (add_headSteps_le hle hw))
    have hcur₁ : l₁.t ≤ r.cursor := Nat.le_trans hlow hcur
    refine ⟨hcur₁, Loop.halts_of_next ?_ hhalts⟩
    rw [callHead_congr, hnext]
    refine hahead l₁ hle hw hcur₁ ?_
    intro c ht hb hs hp
    have hlow₂ := @pair_low l₁ k cc c ht hb hs hp
    rw [hnext] at hlow₂
    exact Nat.le_trans hlow₂ hcur

end Head

/-- There is no NUL from `i` up to `j`. -/
def NoNul (buf : List Byte) (i j : Nat) : Prop := ∀ n, i ≤ n → n < j → buf[n]? ≠ some nul

/-- The loop of every call ends. As long as no escape pair ends at the end, the cursor is inside the
buffer at every loop head, no round outside a blob steps over a NUL, and the result depends only on
the bytes of the buffer up to the place the cursor gets to. -/
theorem call_ends_inside_buffer {cc : Pcont} (hcc : Session (fun _ _ => True) cc) (k : Call)
    (allocs : Nat) (hpos : ∀ p, cc.lastPos = some p → p ≤ k.len) :
    (∃ s, Loop.run (k.head cc) (fuel k.env) (cc.enter allocs) = some s) ∧
      ∀ l, Loop.ReachesWhile (k.head cc) (StopsAtEnd k.env) (cc.enter allocs) l →
        l.t ≤ k.len ∧
          (StopsAtEnd k.env l → l.state ≠ .s15 →
            Post (fun l' => NoNul k.buf l.t l'.t) (fun r => NoNul k.buf l.t r.cursor)
              (fun _ => True) (k.head cc l)) ∧
          (StopsAtEnd k.env l → ∀ r, k.head cc l = .error (.ret r) →
            r.cursor ≤ k.len ∧
              ∀ buf', k.len < k.buf.length → k.len < buf'.length →
                (∀ i, i ≤ r.cursor → i < k.len → buf'[i]? = k.buf[i]?) →
                Loop.run (Call.head { k with buf := buf' } cc) (fuel { k.env with buf := buf' })
                  (cc.enter allocs) = some (.ret r)) := by
  have hsane : Sane (cc.enter allocs).toRegs := sane_of_session hcc
  have hent : (cc.enter allocs).t ≤ k.len := by
    cases hp : cc.lastPos with
    | none => simp [Pcont.enter, hp]
    | some p => simpa [Pcont.enter, hp] using hpos p hp
  refine ⟨run_ends hsane, fun l hrun => ?_⟩
  have hsane' : Sane l.toRegs := sane_of_reaches hsane hrun
  have hle : l.t ≤ k.len := cursor_le_of_reaches hsane hent hrun
  have hm := @moves_callHead k cc l hsane'
  refine ⟨hle, ?_, ?_⟩
  · intro hw h15
    refine Post.mono hm ?_ ?_
    · intro l' ho i hlow hhigh
      exact ne_nul_of_headSteps hw h15 hlow (Nat.lt_of_lt_of_le hhigh ho.1.high)
    · intro r ho i hlow hhigh
      exact ne_nul_of_headSteps hw h15 hlow (Nat.lt_of_lt_of_le hhigh ho.high)
  · intro hw r hret
    rw [hret] at hm
    refine ⟨Nat.le_trans hm.high (add_headSteps_le hle hw), ?_⟩
    intro buf' hcells hcells' hagree
    exact run_eq_of_halts hsane (halts_of_agree hcells hcells' hagree hsane hent hrun hw hret).2

/-- The call on `(a) (b c)`, with `tail` behind it in memory. -/
def twoLists (tail : List Byte) : Call :=
  ⟨.plain, [lparen, 97, rparen, space, lparen, 98, space, 99, rparen] ++ tail, 9, .ok⟩

/-- The client has got `(a)` and calls again. In the round that closes `(b c)` the cursor steps over
its paren up to the end of the buffer, and the result is the same with other bytes behind it. -/
theorem call_ends_inside_buffer_resumed :
    ∃ cc l r, Session (fun _ _ => True) cc ∧ cc.lastPos = some 3 ∧
      l ∈ Loop.heads ((twoLists [nul]).head cc) 8 (cc.enter 0) ∧ l.state = .s3 ∧ l.t = 8 ∧
      l.t ≤ 9 ∧ (twoLists [nul]).head cc l = .error (.ret r) ∧ r.cc.lastSexp.length = 1 ∧
      NoNul (twoLists [nul]).buf l.t r.cursor ∧ r.cursor = 9 ∧ r.cursor ≤ 9 ∧
      Loop.run ((twoLists [rparen, nul]).head cc) (fuel (twoLists [rparen, nul]).env) (cc.enter 0) =
        some (.ret r) := by
  have hcheck : ((cparseSexp .plain (some (twoLists [nul]).buf) 9 (some (Pcont.new .plain))
      .ok).returnOf.bind fun r₁ =>
        (Loop.heads ((twoLists [nul]).head r₁.cc) 8 (r₁.cc.enter 0)).getLast?.bind fun l =>
          (Result.ofStop (Loop.run ((twoLists [nul]).head r₁.cc) 1 l)).returnOf.map fun r =>
            decide ((r₁.cc.lastPos = some 3 ∧ l.state = .s3 ∧ l.t = 8 ∧ r.cursor = 9 ∧
                r.cc.lastSexp.length = 1) ∧
              ∀ m ∈ Loop.heads ((twoLists [nul]).head r₁.cc) 8 (r₁.cc.enter 0), m.state ≠ .s5)) =
      some true := by
    decide +kernel
  obtain ⟨r₁, hret₁, hcheck⟩ := Option.bind_eq_some_iff.mp hcheck
  obtain ⟨l, hlast, hcheck⟩ := Option.bind_eq_some_iff.mp hcheck
  obtain ⟨r, hret, hcheck⟩ := Option.map_eq_some_iff.mp hcheck
  obtain ⟨⟨hpos, hstate, ht, hcursor, htree⟩, hplain⟩ := of_decide_eq_true hcheck
  have hmem := List.mem_of_getLast? hlast
  have hcc : Session (fun _ _ => True) r₁.cc :=
    .of_call (k := twoLists [nul]) (.start (initContinuation_of_succeeds fun _ => rfl)) hret₁
      fun _ _ => trivial
  have hstops : ∀ m : Locals, m.state ≠ .s5 → StopsAtEnd (twoLists [nul]).env m :=
    fun m hm h => hm h.1
  have hrun := Loop.reachesWhile_of_mem_heads hmem fun m hm => hstops m (hplain m hm)
  have hend := hstops l (hplain l hmem)
  have hexit := Loop.exit_of_run_one (ret_of_ofStop hret)
  obtain ⟨-, hheads⟩ := call_ends_inside_buffer hcc (twoLists [nul]) 0 (by
    rintro p hp
    rw [hpos] at hp
    cases hp
    decide)
  obtain ⟨hle, hnul, hlocal⟩ := hheads l hrun
  have hround := hnul hend (by rw [hstate]; decide)
  rw [hexit] at hround
  obtain ⟨hbound, hsame⟩ := hlocal hend r hexit
  refine ⟨r₁.cc, l, r, hcc, hpos, hmem, hstate, ht, hle, hexit, htree, hround, hcursor, hbound, ?_⟩
  refine hsame (twoLists [rparen, nul]).buf (by decide) (by decide) fun i _ hi => ?_
  rw [twoLists, twoLists, List.getElem?_append_left hi, List.getElem?_append_left hi]

/-- The chunk `"\"` of three bytes: the cursor gets behind its end and behind the NUL there, and the
bytes it finds decide whether an expression is returned. -/
theorem escape_pair_overruns :
    (cparseSexp .plain (some [dquote, backslash, dquote, nul, dquote, nul]) 3 none
        .ok).returnOf.map (fun r => (r.cursor, r.errno)) = some (5, .ok) ∧
      (cparseSexp .plain (some [dquote, backslash, dquote, nul, nul, nul]) 3 none
        .ok).returnOf.map (fun r => (r.cursor, r.errno)) = some (4, .incomplete) := by
  decide +kernel

end Sfsexp.Proofs
