import Sfsexp.Proofs.EventAtomBuffer

/-!
# Every write to the atom buffer is in bounds

The invariant of the atom buffer along every sequence of calls, in any mode, and what breaks it.
-/

namespace Sfsexp.Proofs

open Sfsexp

/-- A round with working allocations that keeps the invariant of the atom buffer. -/
def TidyCall (env : Env) (l : Locals) : Prop := env.Succeeds ∧ TidyRound env l

lemma keeps_head {k : Call} {cc : Pcont} {l : Locals} (hi : BufferInv l.toRegs)
    (hc : TidyCall k.env l) : KeepsInv (k.head cc l) := by
  obtain ⟨h, hc⟩ := hc
  rw [Call.head]
  split_ifs with hm
  · exact EventEnv.keeps_eparseHead h hi hc
  · exact keeps_cparseHead h hi hc

lemma bufferInv_new (g : Setup) : BufferInv (Pcont.new g).toRegs :=
  ⟨⟨g.length_fresh _, g.params.start_pos⟩, rfl⟩

/-- What the rounds of one call preserve. -/
lemma bufferInv_of_reaches {k : Call} {cc : Pcont} {l l' : Locals} (hi : BufferInv l.toRegs)
    (h : Loop.ReachesWhile (k.head cc) (TidyCall k.env) l l') : BufferInv l'.toRegs := by
  have hstep : ∀ l₁ l₂ : Locals, BufferInv l₁.toRegs → TidyCall k.env l₁ →
      k.head cc l₁ = .ok l₂ → BufferInv l₂.toRegs := by
    intro l₁ l₂ hi hc hnext
    have hk := @keeps_head k cc l₁ hi hc
    rwa [hnext] at hk
  exact Loop.invariant_of_step_while hstep hi h

/-- The invariant holds of every continuation a client gets hold of. -/
lemma bufferInv_of_session {cc : Pcont} (h : Session TidyCall cc) : BufferInv cc.toRegs := by
  induction h with
  | @start g _ _ h =>
    rw [(initContinuation_eq_new h).1]
    exact bufferInv_new g
  | configure _ mode handlers ih => exact ⟨ih.room.same ⟨rfl, rfl, rfl⟩, ih.token⟩
  | @call cc k _ l _ _ hrun hlast hret ih =>
    have hk := @keeps_head k cc l (bufferInv_of_reaches ih hrun) hlast
    rwa [hret] at hk

/-- The escape code has no cell to step back to. -/
lemma head_of_staleEscape {k : Call} {cc : Pcont} {l : Locals} (hi : BufferInv l.toRegs)
    (hs : StaleEscape k.env l) (ht : l.t ≠ k.len) :
    k.head cc l = .error (.fault .atomBuffer) := by
  obtain ⟨hstate, hu, he, c, hb, hq⟩ := hs
  have hv : l.vcur = 0 := by
    have hcur := hi.cursor (by rcases hstate with h | h <;> simp [h, accumulates])
    exact hcur.1.trans hu
  have h15 : l.state ≠ .s15 := by rcases hstate with h | h <;> simp [h]
  have hnul : ¬ (c = nul ∨ l.t = k.env.len) := by
    rintro (rfl | h)
    · exact absurd hq (by decide)
    · exact ht h
  have hesc : (l.esc && isEscapable c) = true := by simp [he, hq]
  rw [Call.head]
  split_ifs with hm
  · rw [EventEnv.eparseHead, if_neg h15, Env.read]
    simp only [hb, ok_bind, if_neg hnul, EventEnv.switch]
    rcases hstate with h | h
    · simp only [h, EventEnv.state4, hesc, if_true, overwrite_start hv]
    · simp only [h, EventEnv.state5, hesc, if_true, overwrite_start hv, error_bind]
  · rw [cparseHead, if_neg h15, Env.read]
    simp only [hb, ok_bind, if_neg hnul, switch]
    rcases hstate with h | h
    · simp only [h, state4, hesc, if_true, overwrite_start hv]
    · simp only [h, state5, hesc, if_true, overwrite_start hv, error_bind]

/-- The code after the loop does not write to the buffer. -/
lemma head_atEnd {k : Call} {cc : Pcont} {l : Locals} (h : AtEnd k.env l) :
    k.head cc l ≠ .error (.fault .atomBuffer) := by
  have hfinish : finish k.env l ≠ .fault .atomBuffer := by
    rw [finish]
    split_ifs
    · rw [returnTree]
      split <;> simp [Locals.save]
    · split <;> simp
  have hgive : ∀ env : EventEnv, env.finish l ≠ .fault .atomBuffer := by
    intro env
    rw [EventEnv.finish]
    split_ifs
    · simp [EventEnv.save, EventEnv.give]
    · split <;> simp [EventEnv.give]
  rw [Call.head]
  split_ifs with hm
  · rw [EventEnv.eparseHead]
    rcases h with ht | ⟨h15, hb⟩
    · split_ifs
      · simpa using hgive _
      · rw [Env.read]
        cases k.env.buf[l.t]? with
        | none => simp
        | some c => simpa [ht] using hgive _
    · simpa [h15, Env.read, hb] using hgive _
  · rw [cparseHead]
    rcases h with ht | ⟨h15, hb⟩
    · split_ifs
      · simpa using hfinish
      · rw [Env.read]
        cases k.env.buf[l.t]? with
        | none => simp
        | some c => simpa [ht] using hfinish
    · simpa [h15, Env.read, hb] using hfinish

/-- In every sequence of calls whose rounds are tidy, the write cursor stands behind the used part
of the buffer wherever text is accumulated, a cell is free there, and a round writes outside the
buffer exactly when it applies a stale escape. -/
theorem atom_buffer_in_bounds {cc : Pcont} (hcc : Session TidyCall cc) {k : Call} {allocs : Nat}
    {l : Locals}
    (hrun : Loop.ReachesWhile (k.head cc) (TidyCall k.env) (cc.enter allocs) l)
    (halloc : k.setup.Succeeds) :
    (accumulates l.state = true → l.vcur = l.valUsed ∧ l.valUsed < l.valAllocated) ∧
      l.val.length = l.valAllocated ∧
      (k.head cc l = .error (.fault .atomBuffer) ↔ StaleEscape k.env l ∧ ¬ AtEnd k.env l) := by
  have hi : BufferInv l.toRegs := bufferInv_of_reaches (bufferInv_of_session hcc) hrun
  refine ⟨hi.cursor, hi.room.cells, ?_, ?_⟩
  · intro hfault
    have hend : ¬ AtEnd k.env l := fun hend => head_atEnd hend hfault
    refine ⟨?_, hend⟩
    by_contra hstale
    have hk := @keeps_head k cc l hi ⟨halloc, hstale, fun he => absurd he hend⟩
    rw [hfault] at hk
    exact hk rfl
  · rintro ⟨hstale, hend⟩
    exact head_of_staleEscape hi hstale fun ht => hend (.inl ht)

/-- A client passes `(p "a` and then `\"b" q`. -/
def openString : Call := .plain [lparen, 112, space, dquote, 97]

def escapedQuote : Call := .plain [backslash, dquote, 98, dquote, space, 113]

lemma tidyCall_of_checked {text : List Byte} {l : Locals}
    (h : (l.esc = true → 0 < l.valUsed) ∧ (0 < l.elts → 0 < l.depth)) :
    TidyCall (Call.plain text).env l := by
  refine ⟨fun _ => rfl, ?_, fun _ hdepth helts => ?_⟩
  · rintro ⟨-, hused, hesc, -⟩
    have hpos := h.1 hesc
    omega
  · have hpos := h.2 helts
    omega

/-- In the second call, inside the string that the first one began, the escaped quote is next: it
overwrites the backslash. -/
theorem atom_buffer_in_bounds_resumed :
    ∃ cc l, Session TidyCall cc ∧ l ∈ Loop.heads (escapedQuote.head cc) 2 (cc.enter 0) ∧
      l.state = .s5 ∧ l.esc = true ∧ escapedQuote.buf[l.t]? = some dquote ∧ l.valUsed = 2 ∧
      (l.vcur = l.valUsed ∧ l.valUsed < l.valAllocated) ∧ l.val.length = l.valAllocated ∧
      escapedQuote.head cc l ≠ .error (.fault .atomBuffer) := by
  have hcheck : ((cparseSexp openString.setup (some openString.buf) openString.len
      (some (Pcont.new .plain)) openString.errno).returnOf.bind fun r =>
        (Loop.heads (escapedQuote.head r.cc) 2 (r.cc.enter 0)).getLast?.map fun l =>
          decide ((l.state = .s5 ∧ l.esc = true ∧ escapedQuote.buf[l.t]? = some dquote ∧
              l.valUsed = 2) ∧
            (∀ m ∈ Loop.heads (openString.head (Pcont.new .plain)) (fuel openString.env)
                ((Pcont.new .plain).enter 0),
              (m.esc = true → 0 < m.valUsed) ∧ (0 < m.elts → 0 < m.depth)) ∧
            ∀ m ∈ Loop.heads (escapedQuote.head r.cc) 2 (r.cc.enter 0),
              (m.esc = true → 0 < m.valUsed) ∧ (0 < m.elts → 0 < m.depth))) = some true := by
    decide +kernel
  obtain ⟨r, hret, hcheck⟩ := Option.bind_eq_some_iff.mp hcheck
  obtain ⟨l, hlast, hcheck⟩ := Option.map_eq_some_iff.mp hcheck
  obtain ⟨⟨hstate, hesc, hnext, hused⟩, hfirst, hsecond⟩ := of_decide_eq_true hcheck
  have hmem := List.mem_of_getLast? hlast
  have hcc : Session TidyCall r.cc :=
    .of_call (k := openString) (.start (initContinuation_of_succeeds fun _ => rfl)) hret
      fun m hm => tidyCall_of_checked (hfirst m hm)
  have hrun : Loop.ReachesWhile (escapedQuote.head r.cc) (TidyCall escapedQuote.env) (r.cc.enter 0)
      l := Loop.reachesWhile_of_mem_heads hmem fun m hm => tidyCall_of_checked (hsecond m hm)
  obtain ⟨hcursor, hcells, hwrites⟩ := atom_buffer_in_bounds hcc hrun fun _ => rfl
  refine ⟨r.cc, l, hcc, hmem, hstate, hesc, hnext, hused, hcursor (by rw [hstate]; rfl), hcells, ?_⟩
  intro hfault
  obtain ⟨⟨-, hnone, -⟩, -⟩ := hwrites.mp hfault
  omega

/-- On `(a\ "(")` the backslash at the end of the bare atom escapes the byte behind the quote, and
the escape code steps back out of the empty buffer. -/
theorem stale_escape_underruns :
    (cparseSexp .plain (some [lparen, 97, backslash, space, dquote, lparen, dquote, rparen, nul]) 8
      none .ok).faultOf = some .atomBuffer := by
  decide +kernel

end Sfsexp.Proofs
