import Sfsexp.Proofs.EventAtomBuffer
import Sfsexp.Proofs.NormalMode
import Sfsexp.Proofs.Refinement
import Sfsexp.Spec.EventAgreement

/-!
# The event-only parser follows the tree-building one

Round by round, `eparse_sexp` in mode `PARSER_EVENTS_ONLY` does what `cparse_sexp` does in mode
`PARSER_NORMAL`: it leaves the cursor where the other does, and makes a callback when the other does.
The two differ in their buffers, in what is on the stack, and in `squoted`. The event-only parser
does not clear it where a string ends inside a list, and leaves the value of the call's start where
a list ends outside of others. An atom that is reported while the two values differ is reported
differently.
-/

namespace Sfsexp.Proofs

open Sfsexp Spec

/-- Two sequences of callbacks that differ at some place. -/
def Apart (xs ys : List Event) : Prop :=
  ∃ (i : Nat) (a b : Event), xs[i]? = some a ∧ ys[i]? = some b ∧ a ≠ b

/-- The callbacks are the same, or, once an atom was `mixed` up, not. -/
def HeardAs (hs : Option Handlers) (mixed : Bool) (xs ys : List Event) : Prop :=
  if mixed then (∀ a, heard (·.characters) a hs = [a]) → Apart xs ys else ys = xs

section HeardAs

variable {hs : Option Handlers} {mixed here : Bool} {xs ys : List Event} {a b : Event}

lemma Apart.append (h : Apart xs ys) (us vs : List Event) : Apart (xs ++ us) (ys ++ vs) := by
  obtain ⟨i, a, b, hx, hy, hne⟩ := h
  refine ⟨i, a, b, ?_, ?_, hne⟩
  · rw [List.getElem?_append_left (List.getElem?_eq_some_iff.mp hx).1, hx]
  · rw [List.getElem?_append_left (List.getElem?_eq_some_iff.mp hy).1, hy]

lemma HeardAs.append (h : HeardAs hs mixed xs ys) (zs : List Event) :
    HeardAs hs mixed (xs ++ zs) (ys ++ zs) := by
  cases mixed with
  | false => exact congrArg (· ++ zs) h
  | true => exact fun hset => Apart.append (h hset) zs zs

lemma apart_last (hne : a ≠ b) : Apart (xs ++ [a]) (xs ++ [b]) :=
  ⟨xs.length, a, b, by simp, by simp, hne⟩

/-- A callback on both sides, of which the second is another one when `here` is set. -/
lemma HeardAs.both (h : HeardAs hs mixed xs ys) (hsame : here = false → b = a)
    (hdiff : here = true → a ≠ b) :
    HeardAs hs (mixed || here) (xs ++ heard (·.characters) a hs)
      (ys ++ heard (·.characters) b hs) := by
  cases here with
  | false =>
    rw [hsame rfl, Bool.or_false]
    exact h.append _
  | true =>
    rw [Bool.or_true]
    intro hset
    rw [hset a, hset b]
    cases mixed with
    | false =>
      obtain rfl : ys = xs := h
      exact apart_last (hdiff rfl)
    | true => exact Apart.append (h hset) _ _

end HeardAs

/-- The handlers, `squoted` in the tree-building parser and in the event-only one, and whether an atom
was reported while the two differed. -/
structure Flags where
  handlers : Option Handlers
  squoted : Bool
  kept : Bool
  mixed : Bool

/-- An atom is reported with the type that `squoted` tells. -/
def Flags.report (f : Flags) : Flags := { f with mixed := f.mixed || (f.kept != f.squoted) }

def Flags.cleared (f : Flags) : Flags := { f with squoted := false, kept := false }

/-- The event-only locals `e` differ from `l` in the buffer, the stack, the mode and `squoted`, and
in what was heard. -/
structure Shadows (f : Flags) (l e : Locals) : Prop where
  frame : e = { l with val := e.val, valAllocated := e.valAllocated, stack := e.stack, sx := e.sx
                       allocs := e.allocs, mode := e.mode, squoted := f.kept, events := e.events }
  squoted : l.squoted = f.squoted
  handlers : l.eventHandlers = f.handlers
  height : e.stack.height = l.stack.height
  text : e.val.take l.valUsed = l.val.take l.valUsed
  room : Room e.toRegs
  mode : e.mode = .eventsOnly
  heard : HeardAs f.handlers f.mixed l.events e.events

/-- The same for what a continuation holds. -/
structure ShadowRegs (kept : Bool) (l e : Regs) : Prop where
  frame : e = { l with val := e.val, valAllocated := e.valAllocated, stack := e.stack, mode := e.mode
                       squoted := kept }
  height : e.stack.height = l.stack.height
  text : e.val.take l.valUsed = l.val.take l.valUsed
  room : Room e
  mode : e.mode = .eventsOnly

/-- What a return leaves: `now` at the end of the text, and `left` before that. -/
def onReturn (now left : Flags) : Option Nat → Flags
  | none => now
  | some _ => left

/-- Two returns of which the second follows the first. After a `SEXP_ERR_BADFORM` the continuations
may differ. -/
structure Echoes (f : Flags) (R R' : Return) : Prop where
  cursor : R'.cursor = R.cursor
  lastPos : R'.cc.lastPos = R.cc.lastPos
  badForm : R'.cc.error = .badForm ↔ R.cc.error = .badForm
  heard : HeardAs f.handlers f.mixed R.events R'.events
  squoted : R.cc.squoted = f.squoted
  handlers : R.cc.eventHandlers = f.handlers
  regs : R.cc.error ≠ .badForm → ShadowRegs f.kept R.cc.toRegs R'.cc.toRegs
  noTree : R'.cc.lastSexp = []
  error : R'.cc.error ≠ .badForm → R'.cc.error = .ok

/-- Two ends of a round. -/
def ShadowStop (now left : Flags) : Stop → Stop → Prop
  | .ret R, .ret R' => Echoes (onReturn now left R.cc.lastPos) R R'
  | .fault _, .fault _ => True
  | _, _ => False

/-- Two pieces of a round, of which the second follows the first. -/
abbrev Shadowed (R : Locals → Locals → Prop) (E : Stop → Stop → Prop) :
    Exec Locals → Exec Locals → Prop :=
  Loop.Lockstep R E

section Pieces

variable {R Q : Locals → Locals → Prop} {E : Stop → Stop → Prop} {f : Flags}

lemma Shadowed.bind {x y : Exec Locals} {g g' : Locals → Exec Locals}
    (hxy : Shadowed R E x y) (hg : ∀ l e, R l e → Shadowed Q E (g l) (g' e)) :
    Shadowed Q E (x >>= g) (y >>= g') := by
  cases x with
  | ok l =>
    cases y with
    | ok e => exact hg l e hxy
    | error _ => exact hxy.elim
  | error _ =>
    cases y with
    | ok _ => exact hxy.elim
    | error _ => exact hxy

lemma Shadowed.of_ok {m : Locals} {y : Exec Locals} (h : Shadowed R E (.ok m) y) :
    ∃ m', y = .ok m' ∧ R m m' := by
  cases y with
  | ok m' => exact ⟨m', rfl, h⟩
  | error _ => exact h.elim

lemma Shadows.cases {l e : Locals} (h : Shadows f l e) : ∃ v a s x k ev,
    e = { l with val := v, valAllocated := a, stack := s, sx := x, allocs := k, mode := .eventsOnly
                 squoted := f.kept, events := ev } ∧
      s.height = l.stack.height ∧ v.take l.valUsed = l.val.take l.valUsed ∧
      v.length = a ∧ l.valUsed < a ∧ l.squoted = f.squoted ∧ l.eventHandlers = f.handlers ∧
      HeardAs f.handlers f.mixed l.events ev := by
  have hframe := h.frame
  rw [h.mode] at hframe
  have hfree := h.room.free
  have hused : e.valUsed = l.valUsed := congrArg (·.valUsed) h.frame
  rw [hused] at hfree
  exact ⟨_, _, _, _, _, _, hframe, h.height, h.text, h.room.cells, hfree, h.squoted, h.handlers,
    h.heard⟩

lemma shadows_intro {l : Locals} {v : List Byte} {a k : Nat} {s : Faststack} {x : List Sexp}
    {ev : List Event} (hs : s.height = l.stack.height) (hv : v.take l.valUsed = l.val.take l.valUsed)
    (hlen : v.length = a) (hfree : l.valUsed < a) (hsq : l.squoted = f.squoted)
    (hh : l.eventHandlers = f.handlers) (hev : HeardAs f.handlers f.mixed l.events ev) :
    Shadows f l { l with val := v, valAllocated := a, stack := s, sx := x, allocs := k
                         mode := .eventsOnly, squoted := f.kept, events := ev } :=
  ⟨rfl, hsq, hh, hs, hv, ⟨hlen, hfree⟩, rfl, hev⟩

variable {env : EventEnv} {l e : Locals} {c : Byte}

/-- While the text of a token is accumulated, the cursor stands behind it. -/
structure Writing (f : Flags) (l e : Locals) : Prop extends Shadows f l e where
  left : Room l.toRegs
  cursor : l.vcur = l.valUsed

lemma Writing.cursor' (h : Writing f l e) : e.vcur = e.valUsed := by
  have hcur := h.cursor
  rw [h.frame]
  exact hcur

lemma shadowed_store (h : env.Succeeds) (hl : Writing f l e) (c : Byte) :
    Shadowed (Writing f) E (store env.toEnv c l) (env.store c e) := by
  obtain ⟨v, a, s, x, k, ev, rfl, hs, hv, hlen, hfree, hsq, hh, hev⟩ := hl.toShadows.cases
  obtain ⟨v₁, a₁, k₁, hrun₁, happ₁⟩ := store_ok h hl.left hl.cursor c
  obtain ⟨v₂, a₂, k₂, hrun₂, happ₂⟩ := EventEnv.store_ok h hl.room hl.cursor c
  rw [hrun₁, hrun₂]
  refine ⟨shadows_intro hs ?_ happ₂.cells happ₂.free hsq hh hev, .of_appended happ₁ rfl rfl rfl, rfl⟩
  rw [happ₁.text, happ₂.text, hv]

lemma shadowed_storeEsc (h : env.Succeeds) (hl : Writing f l e) (c : Byte) :
    Shadowed (Writing f) E (storeEsc env.toEnv c l) (env.storeEsc c e) := by
  obtain ⟨v, a, s, x, k, ev, rfl, hs, hv, hlen, hfree, hsq, hh, hev⟩ := hl.toShadows.cases
  obtain ⟨v₁, a₁, k₁, hrun₁, happ₁⟩ := storeEsc_ok h hl.left hl.cursor c
  obtain ⟨v₂, a₂, k₂, hrun₂, happ₂⟩ := EventEnv.storeEsc_ok h hl.room hl.cursor c
  rw [hrun₁, hrun₂]
  refine ⟨shadows_intro hs ?_ happ₂.cells happ₂.free hsq hh hev, .of_appended happ₁ rfl rfl rfl, rfl⟩
  rw [happ₁.text, happ₂.text, hv]

/-- Both step back over the backslash, or both leave their buffers. -/
lemma shadowed_overwrite {now left : Flags} (hl : Writing f l e) :
    Shadowed (fun m m' => Writing f m m' ∧ m.stack = l.stack ∧ m.t = l.t + 1)
      (ShadowStop now left) (overwrite c l) (overwrite c e) := by
  obtain ⟨v, a, s, x, k, ev, rfl, hs, hv, hlen, hfree, hsq, hh, hev⟩ := hl.toShadows.cases
  have hr := hl.left
  have hcur := hl.cursor
  have hcur' := hl.cursor'
  rcases Nat.eq_zero_or_pos l.valUsed with hn | hpos
  · rw [overwrite_start (hcur.trans hn), overwrite_start (hcur'.trans hn)]
    exact trivial
  · obtain ⟨n, hn⟩ := Nat.exists_eq_add_of_lt hpos
    rw [Nat.zero_add] at hn
    have hfree' := hr.free
    have hlt : n < l.val.length := by
      rw [hr.cells]
      omega
    have hlt' : n < v.length := by omega
    rw [overwrite_ok (hcur.trans hn) hlt, overwrite_ok (hcur'.trans hn) hlt']
    refine ⟨⟨shadows_intro hs ?_ ?_ hfree hsq hh hev, ⟨?_, hfree'⟩, hcur⟩, rfl, rfl⟩
    · dsimp only
      rw [hn] at hv ⊢
      rw [Cells.take_succ_set_last hlt, Cells.take_succ_set_last hlt', hv]
    · rw [List.length_set, hlen]
    · rw [List.length_set, hr.cells]

/-- The first byte of a bare atom. -/
lemma shadowed_head (h : env.Succeeds) (hl : Shadows f l e) (hr : Room l.toRegs)
    (hu : l.valUsed = 0) :
    Shadowed (fun m m' => m.mode = l.mode ∧ Shadows f m m') E
      (writeCur c { l with vcur := 0 } >>= fun l =>
        grow env.toEnv false { l with esc := c == backslash, valUsed := l.valUsed + 1 })
      (env.storeEsc c { e with vcur := 0 }) := by
  have hu' : e.valUsed = 0 := (congrArg (·.valUsed) hl.frame).trans hu
  obtain ⟨v₁, a₁, k₁, hrun₁, happ₁⟩ := head_ok h hr hu c
  obtain ⟨v₂, a₂, k₂, hrun₂, happ₂⟩ :=
    @EventEnv.storeEsc_ok env h { e with vcur := 0 } (hl.room.same ⟨rfl, rfl, rfl⟩) hu'.symm c
  have ht₁ := happ₁.text
  have ht₂ := happ₂.text
  have hfree₂ := happ₂.free
  rw [hrun₁, hrun₂]
  obtain ⟨v, a, s, x, k, ev, rfl, hs, hv, hlen, hfree, hsq, hh, hev⟩ := hl.cases
  simp only [hu, Nat.zero_add, List.take_zero, List.nil_append] at ht₁ ht₂ hfree₂ ⊢
  exact ⟨rfl, shadows_intro hs (ht₂.trans ht₁.symm) happ₂.cells hfree₂ hsq hh hev⟩

lemma report_eq (aty : AtomT) (e : Locals) :
    EventEnv.report aty e = { e with
      elts := e.elts + 1, vcur := 0, valUsed := 0
      events := e.events ++ heard (·.characters)
        (.characters (e.val.take e.valUsed) e.valUsed aty) e.eventHandlers } := by
  rw [EventEnv.report, fire_eq]

/-- The atom is built and reported on one side, and only reported on the other, with the same text
and type unless `here` is set. -/
lemma shadows_emitted {here : Bool} (hl : Shadows f l e) {aty aty' : AtomT} {v v' : List Byte}
    {a a' u u' i i' k k' : Nat} (hcells : v'.length = a') (hpos : 0 < a')
    (hsame : here = false → aty' = aty ∧ u' = u ∧ v'.take u = v.take u)
    (hdiff : here = true → aty ≠ aty') :
    Shadows { f with mixed := f.mixed || here }
      (emitted env.toEnv aty
        { l with val := v, valAllocated := a, valUsed := u, vcur := i, allocs := k })
      (EventEnv.report aty'
        { e with val := v', valAllocated := a', valUsed := u', vcur := i', allocs := k' }) := by
  obtain ⟨w, b, s, x, j, ev, rfl, hs, -, -, -, hsq, hh, hev⟩ := hl.cases
  rw [report_eq]
  refine ⟨rfl, hsq, hh, hs, ?_, ⟨hcells, hpos⟩, rfl, ?_⟩
  · simp only [emitted, List.take_zero]
  · dsimp only [emitted]
    rw [hh]
    refine hev.both (fun hno => ?_) fun hyes heq => ?_
    · obtain ⟨rfl, rfl, htext⟩ := hsame hno
      rw [htext]
    · exact hdiff hyes (Event.characters.inj heq).2.2

end Pieces

/-- A string ends while `depth` lists are open. -/
def Flags.stringEnd (f : Flags) (depth : Nat) : Flags :=
  if depth = 0 then f.report.cleared else { f.report with squoted := false }

/-- A bare atom ends in front of the byte `c`. -/
def endsBare (esc : Bool) (c : Byte) : Bool := !(esc && isEscapable c) && !isAtomByte c

/-- The flags behind the case of the `switch` for the byte `c`. -/
def Flags.after (f : Flags) (env : Env) (l : Locals) (c : Byte) : Flags :=
  match l.state with
  | .s4 => if endsBare l.esc c then f.report.cleared else f
  | .s5 => if ClosesString env l then f.stringEnd l.depth else f
  | .s7 => if c = lparen then f else { f with squoted := true, kept := true }
  | _ => f

/-- The flags behind a round. -/
def Flags.next (f : Flags) (env : Env) (l : Locals) : Flags :=
  match env.buf[l.t]? with
  | none => f
  | some c => if c = nul ∨ l.t = env.len then f else f.after env l c

section States

variable {E : Stop → Stop → Prop} {f : Flags} {env : EventEnv} {l e : Locals} {c : Byte}
variable {L : List (List Sexp)} {now left : Flags}

lemma StackOk.height_eq {s : Faststack} (hs : StackOk s L) :
    s.height = if L = [] then 0 else L.length + 1 := by
  rw [hs.height, hs.levels]
  cases L with
  | nil => rfl
  | cons T Ls => simp [openLevels]

/-- Both return with the state set back. -/
lemma shadowStop_save (hl : Shadows f l e) (ls : List Sexp) :
    ShadowStop now f.cleared ({ l with squoted := false, state := .s1, esc := false }.save .ok ls)
      (env.save e .ok false) := by
  obtain ⟨v, a, s, x, k, ev, rfl, hs, hv, hlen, hfree, -, hh, hev⟩ := hl.cases
  exact ⟨rfl, rfl, Iff.rfl, hev, rfl, hh, fun _ => ⟨rfl, hs, hv, ⟨hlen, hfree⟩, rfl⟩, rfl, fun _ => rfl⟩

lemma shadowed_state1 (h : env.Succeeds) (hl : Shadows f l e) (hr : Room l.toRegs)
    (hu : l.valUsed = 0) (hmode : l.mode = .normal) :
    Shadowed (Shadows f) E (state1 env.toEnv c l) (env.state1 c e) := by
  obtain ⟨v, a, s, x, k, ev, rfl, hs, hv, hlen, hfree, hsq, hh, hev⟩ := hl.cases
  rw [state1, EventEnv.state1]
  split_ifs
  · exact shadows_intro hs hv hlen hfree hsq hh hev
  · exact shadows_intro hs hv hlen hfree hsq hh hev
  · rw [fire_eq, fire_eq]
    exact shadows_intro hs hv hlen hfree hsq hh (hev.append _)
  · exact shadows_intro hs hv hlen hfree hsq hh hev
  · exact shadows_intro hs hv hlen hfree hsq hh hev
  · exact shadows_intro hs hv hlen hfree hsq hh hev
  · have hplain : ¬ (c = hash ∧ l.mode = .inlineBinary) := by simp [hmode]
    rw [← bind_assoc]
    refine (shadowed_head h (shadows_intro hs hv hlen hfree hsq hh hev) hr hu).bind ?_
    intro m m' hm
    have hmode' := hm.1
    obtain ⟨v, a, s, x, k, ev, rfl, hs, hv, hlen, hfree, hsq, hh, hev⟩ := hm.2.cases
    rw [if_neg (by rw [hmode', hmode]; simp), if_neg (by simp)]
    exact shadows_intro hs hv hlen hfree hsq hh hev

lemma shadowed_state2 (h : env.Succeeds) (hl : Shadows f l e) (hstack : StackOk l.stack L) :
    Shadowed (Shadows f) E (state2 env.toEnv l) (.ok (EventEnv.state2 e)) := by
  obtain ⟨s', k', hrun, hok⟩ := state2_ok h hstack
  have hheight := hstack.height_eq
  have hheight' := hok.height_eq
  obtain ⟨v, a, s, x, k, ev, rfl, hs, hv, hlen, hfree, hsq, hh, hev⟩ := hl.cases
  rw [hrun]
  refine shadows_intro ?_ hv hlen hfree hsq hh hev
  dsimp only
  rw [hs, hheight, hheight', if_neg (List.cons_ne_nil _ _)]
  cases L with
  | nil => rfl
  | cons T Ls =>
    rw [if_neg (List.cons_ne_nil _ _), if_neg (by omega)]
    rfl

/-- The closing paren, with the callbacks written out. -/
lemma eventState3_eq (env : EventEnv) (e : Locals) :
    env.state3 e =
      if e.depth = 0 then .error (env.save e .badForm env.cc.squoted)
      else if e.depth - 1 = 0 then
        .error (env.save { e with
          t := e.t + 1, depth := e.depth - 1, stack := { e.stack with height := 0 }
          events := e.events ++ heard (·.endSexpr) .endSexpr e.eventHandlers } .ok env.cc.squoted)
      else .ok { e with
        t := e.t + 1, depth := e.depth - 1, state := .s1
        stack := { e.stack with height := e.stack.height - 1 }
        events := e.events ++ heard (·.endSexpr) .endSexpr e.eventHandlers } := by
  rw [EventEnv.state3, fire_eq]

lemma shadowed_state3 (hl : Shadows f l e) (hstack : StackOk l.stack L)
    (hdepth : l.depth = L.length) :
    Shadowed (Shadows f)
      (ShadowStop now { f with kept := if l.depth = 1 then env.cc.squoted else f.kept }) (state3 l)
      (env.state3 e) := by
  have hheight := hstack.height_eq
  have hdepth' : e.depth = l.depth := congrArg (·.depth) hl.frame
  rw [eventState3_eq, hdepth', hdepth]
  rcases L with _ | ⟨T, _ | ⟨T', Ls⟩⟩
  · rw [state3_bad hdepth, if_pos List.length_nil]
    obtain ⟨v, a, s, x, k, ev, rfl, hs, hv, hlen, hfree, hsq, hh, hev⟩ := hl.cases
    exact ⟨rfl, rfl, Iff.rfl, hev, hsq, hh, fun hbad => absurd rfl hbad, rfl,
      fun hbad => absurd rfl hbad⟩
  · obtain ⟨s', hrun, hok⟩ := state3_outer hstack hdepth
    have hheight' : s'.height = 0 := hok.height_eq
    have hone : [T].length = 1 := rfl
    rw [hrun, hone, if_pos rfl, if_neg (by decide), if_pos (Nat.sub_self 1)]
    obtain ⟨v, a, s, x, k, ev, rfl, hs, hv, hlen, hfree, hsq, hh, hev⟩ := hl.cases
    exact ⟨rfl, rfl, Iff.rfl, hev.append _, hsq, hh,
      fun _ => ⟨rfl, hheight'.symm, hv, ⟨hlen, hfree⟩, rfl⟩, rfl, fun _ => rfl⟩
  · obtain ⟨s', hrun, hok⟩ := state3_inner hstack hdepth
    have hheight' : s'.height = Ls.length + 2 := hok.height_eq
    have hheight : l.stack.height = Ls.length + 3 := hheight
    rw [hrun, if_neg (by simp), if_neg (by simp)]
    obtain ⟨v, a, s, x, k, ev, rfl, hs, hv, hlen, hfree, hsq, hh, hev⟩ := hl.cases
    refine shadows_intro ?_ hv hlen hfree hsq hh (hev.append _)
    dsimp only
    rw [hs, hheight, hheight']
    rfl

/-- The end of a token in the tree-building parser adds the atom to the stack, which keeps its
height. -/
lemma shadows_stack {m e : Locals} (hm : Shadows f m e) {s : Faststack}
    (hs : s.height = m.stack.height) : Shadows f { m with stack := s } e := by
  obtain ⟨v, a, s', x, k, ev, rfl, hs', hv, hlen, hfree, hsq, hh, hev⟩ := hm.cases
  exact ⟨rfl, hsq, hh, hs'.trans hs.symm, hv, ⟨hlen, hfree⟩, rfl, hev⟩

lemma shadows_afterBare (hl : Shadows f l e) :
    Shadows f.cleared (afterBare c l) (afterBare c e) := by
  obtain ⟨v, a, s, x, k, ev, rfl, hs, hv, hlen, hfree, -, hh, hev⟩ := hl.cases
  rw [afterBare, afterBare]
  split_ifs
  · exact shadows_intro (f := f.cleared) hs hv hlen hfree rfl hh hev
  · exact shadows_intro (f := f.cleared) hs hv hlen hfree rfl hh hev
  · exact shadows_intro (f := f.cleared) hs hv hlen hfree rfl hh hev

/-- The terminating NUL goes behind the text. -/
lemma shadowed_terminate (hl : Writing f l e) : ∃ v v',
    writeCur nul l = .ok { l with val := v } ∧ writeCur nul e = .ok { e with val := v' } ∧
      v = l.val.set l.vcur nul ∧ v'.length = e.val.length ∧ l.vcur < l.val.length ∧
      v'.take l.valUsed = v.take l.valUsed ∧ v'.take (l.valUsed + 1) = v.take (l.valUsed + 1) := by
  obtain ⟨v, a, s, x, k, ev, rfl, hs, hv, hlen, hfree, -, -, -⟩ := hl.toShadows.cases
  have hlt : l.valUsed < l.val.length := by
    rw [hl.left.cells]
    exact hl.left.free
  have hlt' : l.valUsed < v.length := by omega
  have hcur := hl.cursor
  refine ⟨_, _, writeCur_ok (by rwa [hcur]), writeCur_ok (by rwa [hcur]), rfl, List.length_set,
    by rwa [hcur], ?_, ?_⟩
  · rw [hcur, List.take_set_of_le (Nat.le_refl _), List.take_set_of_le (Nat.le_refl _), hv]
  · rw [hcur, Cells.take_succ_set hlt, Cells.take_succ_set hlt', hv]

/-- The type of an atom tells the two values of `squoted` apart. -/
lemma bareType_eq_iff (hl : Shadows f l e) : bareType e = bareType l ↔ f.kept = f.squoted := by
  have hkept : e.squoted = f.kept := congrArg (·.squoted) hl.frame
  rw [bareType, bareType, hkept, hl.squoted]
  cases f.kept <;> cases f.squoted <;> simp

lemma quotedType_eq_iff (hl : Shadows f l e) : quotedType e = quotedType l ↔ f.kept = f.squoted := by
  have hkept : e.squoted = f.kept := congrArg (·.squoted) hl.frame
  rw [quotedType, quotedType, hkept, hl.squoted]
  cases f.kept <;> cases f.squoted <;> simp

lemma shadowed_endBare (h : env.Succeeds) (hl : Writing f l e) (hstack : StackOk l.stack L) :
    Shadowed (Shadows f.report.cleared) (ShadowStop now f.report.cleared) (endBare env.toEnv c l)
      (env.endBare c e) := by
  obtain ⟨v, v', -, hwrite, rfl, hlen, hlt, -, htext⟩ := shadowed_terminate hl
  have hused : e.valUsed = l.valUsed := congrArg (·.valUsed) hl.frame
  have htype := bareType_eq_iff hl.toShadows
  have hheight : e.stack.height = if L = [] then 0 else L.length + 1 :=
    hl.height.trans hstack.height_eq
  have hroom := hl.room
  have hatom : Shadows f.report (emitted env.toEnv (bareType l) (terminated l))
      (EventEnv.report (bareType e) { e with val := v', valUsed := l.valUsed + 1 }) := by
    refine shadows_emitted hl.toShadows (hlen.trans hroom.cells)
      (Nat.lt_of_le_of_lt (Nat.zero_le _) hroom.free) (fun hsame => ?_) fun hdiff heq => ?_
    · exact ⟨htype.mpr (by simpa using hsame), rfl, htext⟩
    · simp [htype.mp heq.symm] at hdiff
  have hrun : env.endBare c e =
      if e.stack.height < 1 then
        .error (env.save (EventEnv.report (bareType e) { e with
          val := v', valUsed := l.valUsed + 1 }) .ok false)
      else .ok (afterBare c (EventEnv.report (bareType e) { e with
        val := v', valUsed := l.valUsed + 1 })) := by
    rw [EventEnv.endBare, hwrite, ok_bind, bareType, ← hused]
    simp only [report_eq]
  rw [hrun, hheight]
  cases L with
  | nil =>
    rw [endBare_top h hlt hstack, if_pos (by decide)]
    exact shadowStop_save hatom _
  | cons T Ls =>
    obtain ⟨s, htree, hok⟩ := endBare_open h hlt hstack
    rw [htree, if_neg (by simp)]
    have hs : s.height = l.stack.height := by
      rw [hok.height_eq, hstack.height_eq]
      rfl
    exact shadows_afterBare (shadows_stack hatom hs)

/-- The same change of fields on both sides. -/
lemma Writing.map (hl : Writing f l e) (g : Locals → Locals)
    (hg : ∀ m m', Shadows f m m' → Shadows f (g m) (g m'))
    (hbuf : SameBuffer l.toRegs (g l).toRegs ∧ (g l).vcur = l.vcur) : Writing f (g l) (g e) :=
  ⟨hg _ _ hl.toShadows, hl.left.same hbuf.1, hbuf.2.trans (hl.cursor.trans hbuf.1.2.2.symm)⟩

lemma shadows_advance (hl : Shadows f l e) (t : Nat) :
    Shadows f { l with t := t } { e with t := t } := by
  obtain ⟨v, a, s, x, k, ev, rfl, hs, hv, hlen, hfree, hsq, hh, hev⟩ := hl.cases
  exact shadows_intro hs hv hlen hfree hsq hh hev

lemma shadowed_state4 (h : env.Succeeds) (hl : Writing f l e) (hstack : StackOk l.stack L)
    (hs : l.state = .s4) :
    Shadowed (Shadows (f.after env.toEnv l c)) (ShadowStop now (f.after env.toEnv l c).cleared)
      (state4 env.toEnv c l) (env.state4 c e) := by
  have hesc : e.esc = l.esc := congrArg (·.esc) hl.frame
  rw [Flags.after, hs]
  dsimp only
  rw [state4, EventEnv.state4, hesc, endsBare]
  cases hpair : l.esc && isEscapable c with
  | true =>
    have hover := @shadowed_overwrite f l e c now f.cleared hl
    simp only [if_true, Bool.not_true, Bool.false_and, Bool.false_eq_true, if_false]
    rw [← bind_pure (overwrite c l), ← bind_pure (overwrite c e)]
    exact hover.bind fun _ _ hm => hm.1.toShadows
  | false =>
    cases hatom : isAtomByte c with
    | true =>
      simp only [if_true, Bool.not_true, Bool.and_false, Bool.false_eq_true, if_false]
      refine (shadowed_storeEsc h hl c).bind ?_
      intro m m' hm
      obtain ⟨v, a, s, x, k, ev, rfl, hs, hv, hlen, hfree, hsq, hh, hev⟩ := hm.toShadows.cases
      exact shadows_intro hs hv hlen hfree hsq hh hev
    | false =>
      simp only [Bool.not_false, Bool.and_true, if_true, Bool.false_eq_true, if_false]
      exact shadowed_endBare h hl hstack

lemma shadows_unquote (hl : Shadows f l e) :
    Shadows { f with squoted := false } { l with squoted := false } e := by
  obtain ⟨v, a, s, x, k, ev, rfl, hs, hv, hlen, hfree, -, hh, hev⟩ := hl.cases
  exact ⟨rfl, rfl, hh, hs, hv, ⟨hlen, hfree⟩, rfl, hev⟩

lemma eventClosingQuote_ok (h : env.Succeeds) (hr : Room e.toRegs) (hv : e.vcur = e.valUsed) :
    ∃ v a u k, env.closingQuote e =
        .ok { e with val := v, valAllocated := a, valUsed := u, vcur := u, allocs := k } ∧
      v.length = a ∧ u < a ∧
      v.take u = if e.squoted then e.val.take e.valUsed ++ [dquote] else e.val.take e.valUsed := by
  rw [EventEnv.closingQuote]
  by_cases hsq : e.squoted = true
  · obtain ⟨v, a, k, hg, happ⟩ := EventEnv.store_ok h hr hv dquote
    rw [if_pos hsq, if_pos hsq]
    exact ⟨v, a, _, k, hg, happ.cells, happ.free, happ.text⟩
  · rw [if_neg hsq, if_neg hsq]
    refine ⟨e.val, e.valAllocated, e.valUsed, e.allocs, ?_, hr.cells, hr.free, rfl⟩
    exact congrArg (fun n => Except.ok { e with vcur := n }) hv

/-- The closing quote is read. Inside a list only the tree-building parser clears `squoted`. -/
lemma shadowed_endQuoted (h : env.Succeeds) (hl : Writing f l e) (hstack : StackOk l.stack L) :
    Shadowed (Shadows (f.stringEnd L.length)) (ShadowStop now (f.stringEnd L.length).cleared)
      (endQuoted env.toEnv l) (env.endQuoted e) := by
  obtain ⟨v₁, a₁, u₁, k₁, hquote₁, hlen₁, hfree₁, htext₁⟩ := closingQuote_ok h hl.left hl.cursor
  obtain ⟨v₂, a₂, u₂, k₂, hquote₂, hlen₂, hfree₂, htext₂⟩ :=
    eventClosingQuote_ok h hl.room hl.cursor'
  have hkept : e.squoted = f.kept := congrArg (·.squoted) hl.frame
  have hused : e.valUsed = l.valUsed := congrArg (·.valUsed) hl.frame
  have ht : e.t = l.t := congrArg (·.t) hl.frame
  have htype := quotedType_eq_iff hl.toShadows
  have hlt₁ : u₁ < v₁.length := by omega
  have hlt₂ : u₂ < v₂.length := by omega
  have hsame : f.kept = f.squoted → u₂ = u₁ ∧ v₂.take u₂ = v₁.take u₁ := by
    intro heq
    have htext : v₂.take u₂ = v₁.take u₁ := by
      rw [htext₁, htext₂, hkept, hl.squoted, heq, hused, hl.text]
    have hlen := congrArg List.length htext
    rw [List.length_take, List.length_take] at hlen
    exact ⟨by omega, htext⟩
  have hatom : Shadows f.report (emitted env.toEnv (quotedType l) { l with
        val := v₁.set u₁ nul, valAllocated := a₁, valUsed := u₁ + 1, vcur := u₁, allocs := k₁ + 1 })
      (EventEnv.report (quotedType e) { e with
        val := v₂.set u₂ nul, valAllocated := a₂, valUsed := u₂ + 1, vcur := u₂, allocs := k₂ }) := by
    refine shadows_emitted hl.toShadows (by rw [List.length_set, hlen₂]) (by omega)
      (fun hno => ?_) fun hdiff heq => ?_
    · have heq : f.kept = f.squoted := by simpa using hno
      obtain ⟨rfl, htext⟩ := hsame heq
      refine ⟨htype.mpr heq, rfl, ?_⟩
      rw [Cells.take_succ_set hlt₁, Cells.take_succ_set hlt₂, htext]
    · simp [htype.mp heq.symm] at hdiff
  have hclear := shadows_advance (shadows_unquote hatom) (l.t + 1)
  have hheight : e.stack.height = if L = [] then 0 else L.length + 1 :=
    hl.height.trans hstack.height_eq
  have hrun : env.endQuoted e =
      if e.stack.height < 1 then
        .error (env.save { EventEnv.report (quotedType e) { e with
          val := v₂.set u₂ nul, valAllocated := a₂, valUsed := u₂ + 1, vcur := u₂, allocs := k₂ } with
            t := l.t + 1 } .ok false)
      else .ok { EventEnv.report (quotedType e) { e with
        val := v₂.set u₂ nul, valAllocated := a₂, valUsed := u₂ + 1, vcur := u₂, allocs := k₂ } with
          t := l.t + 1 } := by
    rw [EventEnv.endQuoted, hquote₂, ok_bind, writeCur_ok (by exact hlt₂), ok_bind, quotedType, ← ht]
    simp only [report_eq]
  rw [hrun, hheight]
  cases L with
  | nil =>
    rw [endQuoted_top h hquote₁ hlt₁ hstack, if_pos (by decide)]
    exact shadowStop_save hclear _
  | cons T Ls =>
    obtain ⟨s, htree, hok⟩ := endQuoted_open h hquote₁ hlt₁ hstack
    have hs : s.height = l.stack.height := by
      rw [hok.height_eq, hstack.height_eq]
      rfl
    rw [htree, if_neg (by simp)]
    exact shadows_stack hclear hs

lemma shadowed_state5Rest (h : env.Succeeds) (hl : Writing f l e) (hstack : StackOk l.stack L) :
    Shadowed (Shadows (if c = dquote then f.stringEnd L.length else f))
      (ShadowStop now (if c = dquote then f.stringEnd L.length else f).cleared)
      (state5Rest env.toEnv c l) (env.state5Rest c e) := by
  rw [state5Rest, EventEnv.state5Rest]
  split_ifs
  · refine shadowed_endQuoted h (hl.map (fun l => { l with state := .s6 }) ?_ ?_) hstack
    · intro m m' hm
      obtain ⟨v, a, s, x, k, ev, rfl, hs, hv, hlen, hfree, hsq, hh, hev⟩ := hm.cases
      exact shadows_intro hs hv hlen hfree hsq hh hev
    · exact ⟨⟨rfl, rfl, rfl⟩, rfl⟩
  · refine (shadowed_store h hl c).bind ?_
    intro m m' hm
    obtain ⟨v, a, s, x, k, ev, rfl, hs, hv, hlen, hfree, hsq, hh, hev⟩ := hm.toShadows.cases
    exact shadows_intro hs hv hlen hfree hsq hh hev

lemma closesString_iff {env : Env} (hs : l.state = .s5) (hc : env.buf[l.t]? = some c) :
    ClosesString env l ↔
      if (l.esc && isEscapable c) = true then env.buf[l.t + 1]? = some dquote else c = dquote := by
  rw [ClosesString, hc]
  simp [hs]

lemma shadowed_state5 (h : env.Succeeds) (hl : Writing f l e) (hstack : StackOk l.stack L)
    (hdepth : l.depth = L.length) (hs : l.state = .s5) (hc : env.buf[l.t]? = some c) :
    Shadowed (Shadows (f.after env.toEnv l c)) (ShadowStop now (f.after env.toEnv l c).cleared)
      (state5 env.toEnv c l) (env.state5 c e) := by
  have hesc : e.esc = l.esc := congrArg (·.esc) hl.frame
  have hcloses := closesString_iff hs hc
  rw [Flags.after, hs, hdepth]
  dsimp only
  rw [state5, EventEnv.state5, hesc]
  by_cases hpair : (l.esc && isEscapable c) = true
  · rw [if_pos hpair] at hcloses
    rw [if_pos hpair, if_pos hpair]
    refine shadowed_overwrite hl |>.bind ?_
    rintro m m' ⟨hm, hstack', ht⟩
    have ht' : m'.t = m.t := congrArg (·.t) hm.frame
    rw [Env.read, Env.read, ht', ht]
    cases hnext : env.buf[l.t + 1]? with
    | none => exact trivial
    | some d =>
      rw [← hstack'] at hstack
      have hd : ClosesString env.toEnv l ↔ d = dquote := by
        rw [hcloses, hnext, Option.some_inj]
      simp only [hd]
      exact shadowed_state5Rest h hm hstack
  · rw [if_neg hpair] at hcloses
    rw [if_neg hpair, if_neg hpair]
    simp only [hcloses]
    exact shadowed_state5Rest h hl hstack

/-- The first byte of a token behind an apostrophe. -/
lemma shadowed_state7 (h : env.Succeeds) (hl : Shadows f l e) (hr : Room l.toRegs)
    (hu : l.valUsed = 0) (hs : l.state = .s7) :
    Shadowed (Shadows (f.after env.toEnv l c)) E (state7 env.toEnv c l) (env.state7 c e) := by
  obtain ⟨v, a, s, x, k, ev, rfl, hheight, hv, hlen, hfree, hsq, hh, hev⟩ := hl.cases
  rw [Flags.after, hs]
  dsimp only
  rw [state7, EventEnv.state7]
  by_cases hquote : c = dquote
  · rw [if_pos hquote, if_pos hquote, if_neg (by rw [hquote]; decide)]
    have hstart : Writing f { l with state := .s5, vcur := 0, t := l.t + 1 }
        { l with state := .s5, vcur := 0, t := l.t + 1, val := v, valAllocated := a, stack := s
                 sx := x, allocs := k, mode := .eventsOnly, squoted := f.kept, events := ev } :=
      ⟨shadows_intro hheight hv hlen hfree hsq hh hev, hr.same ⟨rfl, rfl, rfl⟩, hu.symm⟩
    refine (shadowed_store h hstart dquote).bind ?_
    intro m m' hm
    obtain ⟨v, a, s, x, k, ev, rfl, hs, hv, hlen, hfree, -, hh, hev⟩ := hm.toShadows.cases
    exact shadows_intro (f := { f with squoted := true, kept := true }) hs hv hlen hfree rfl hh hev
  · rw [if_neg hquote, if_neg hquote]
    split_ifs
    · exact shadows_intro hheight hv hlen hfree hsq hh hev
    · exact shadows_intro (f := { f with squoted := true, kept := true }) hheight hv hlen hfree rfl hh
        hev

lemma shadowed_endQuotedList (h : env.Succeeds) (hl : Writing f l e) (hstack : StackOk l.stack L) :
    Shadowed (Shadows f) (ShadowStop now f.cleared) (endQuotedList env.toEnv l)
      (env.endQuotedList e) := by
  obtain ⟨v, v', -, hwrite, rfl, hlen, hlt, htext, -⟩ := shadowed_terminate hl
  have hused : e.valUsed = l.valUsed := congrArg (·.valUsed) hl.frame
  have hheight : e.stack.height = if L = [] then 0 else L.length + 1 :=
    hl.height.trans hstack.height_eq
  have hroom := hl.room
  have hatom : Shadows { f with mixed := f.mixed || false }
      (emitted env.toEnv .squote (terminatedList l))
      (EventEnv.report .squote { e with val := v', valUsed := l.valUsed }) :=
    shadows_emitted hl.toShadows (hlen.trans hroom.cells)
      (Nat.lt_of_le_of_lt (Nat.zero_le _) hroom.free) (fun _ => ⟨rfl, rfl, htext⟩)
      fun hdiff => by cases hdiff
  rw [Bool.or_false] at hatom
  have hrun : env.endQuotedList e =
      if e.stack.height < 1 then
        .error (env.save (EventEnv.report .squote { e with
          val := v', valUsed := l.valUsed }) .ok false)
      else .ok (EventEnv.report .squote { e with val := v', valUsed := l.valUsed }) := by
    rw [EventEnv.endQuotedList, hwrite, ok_bind, ← hused]
    simp only [report_eq]
  rw [hrun, hheight]
  cases L with
  | nil =>
    rw [endQuotedList_top h hlt hstack, if_pos (by decide)]
    exact shadowStop_save hatom _
  | cons T Ls =>
    obtain ⟨s, htree, hok⟩ := endQuotedList_open h hlt hstack
    have hs : s.height = l.stack.height := by
      rw [hok.height_eq, hstack.height_eq]
      rfl
    rw [htree, if_neg (by simp)]
    exact shadows_stack hatom hs

lemma shadowed_state9 (h : env.Succeeds) (hl : Writing f l e) (hstack : StackOk l.stack L) :
    Shadowed (Shadows f) (ShadowStop now f.cleared) (state9 env.toEnv l) (env.state9 e) := by
  have hq : e.qdepth = l.qdepth := congrArg (·.qdepth) hl.frame
  rw [state9, EventEnv.state9]
  by_cases hzero : l.qdepth = 0
  · rw [if_pos hzero, if_pos (hq.trans hzero)]
    refine shadowed_endQuotedList h (hl.map (fun l => { l with state := .s1 }) ?_ ?_) hstack
    · intro m m' hm
      obtain ⟨v, a, s, x, k, ev, rfl, hs, hv, hlen, hfree, hsq, hh, hev⟩ := hm.cases
      exact shadows_intro hs hv hlen hfree hsq hh hev
    · exact ⟨⟨rfl, rfl, rfl⟩, rfl⟩
  · rw [if_neg hzero, if_neg (by rwa [hq])]
    obtain ⟨v, a, s, x, k, ev, rfl, hs, hv, hlen, hfree, hsq, hh, hev⟩ := hl.toShadows.cases
    exact shadows_intro hs hv hlen hfree hsq hh hev

lemma shadows_countParen (hl : Shadows f l e) : Shadows f (countParen c l) (countParen c e) := by
  obtain ⟨v, a, s, x, k, ev, rfl, hs, hv, hlen, hfree, hsq, hh, hev⟩ := hl.cases
  rw [countParen, countParen]
  dsimp only
  split_ifs <;> exact shadows_intro hs hv hlen hfree hsq hh hev

lemma shadowed_state8 (h : env.Succeeds) (hl : Writing f l e) (hstack : StackOk l.stack L) :
    Shadowed (Shadows f) (ShadowStop now f.cleared) (state8 env.toEnv c l) (env.state8 c e) := by
  obtain ⟨hbuf, hcur, -⟩ := @countParen_frame l c
  obtain ⟨-, hsame, -⟩ := @countParen_calm l c
  have hcount : Writing f (countParen c l) (countParen c e) :=
    hl.map (countParen c) (fun _ _ hm => shadows_countParen hm) ⟨hbuf, hcur⟩
  obtain ⟨v, a, k, hrun, -⟩ := storeEsc_ok h hcount.left hcount.cursor c
  have hstore := @shadowed_storeEsc (fun _ _ => True) f env _ _ h hcount c
  rw [hrun] at hstore
  obtain ⟨m, hrun', hm⟩ := hstore.of_ok
  have hstate : m.state = (countParen c l).state := congrArg (·.state) hm.frame
  have ht : m.t = (countParen c l).t := congrArg (·.t) hm.frame
  have hnext := hm.map (fun m => { m with t := (countParen c l).t + 1 })
    (fun _ _ hm => shadows_advance hm _) ⟨⟨rfl, rfl, rfl⟩, rfl⟩
  rw [state8, EventEnv.state8, hrun, hrun', ok_bind, ok_bind]
  dsimp only
  rw [hstate, ht]
  split_ifs
  · refine shadowed_state9 h hnext (L := L) ?_
    rw [← hsame] at hstack
    exact hstack
  · exact hnext.toShadows

lemma shadowed_state10 (h : env.Succeeds) (hl : Writing f l e) :
    Shadowed (Shadows f) E (state10 env.toEnv c l) (env.state10 c e) := by
  have hesc : e.esc = l.esc := congrArg (·.esc) hl.frame
  have hentry : Writing f (if c = dquote ∧ l.esc = false then { l with state := .s8 } else l)
      (if c = dquote ∧ e.esc = false then { e with state := .s8 } else e) := by
    by_cases hclose : c = dquote ∧ l.esc = false
    · rw [if_pos hclose, if_pos (by rwa [hesc])]
      refine hl.map (fun l => { l with state := .s8 }) ?_ ⟨⟨rfl, rfl, rfl⟩, rfl⟩
      intro m m' hm
      obtain ⟨v, a, s, x, k, ev, rfl, hs, hv, hlen, hfree, hsq, hh, hev⟩ := hm.cases
      exact shadows_intro hs hv hlen hfree hsq hh hev
    · rw [if_neg hclose, if_neg (by rwa [hesc])]
      exact hl
  rw [state10, EventEnv.state10]
  refine (shadowed_storeEsc h hentry c).bind ?_
  intro m m' hm
  obtain ⟨v, a, s, x, k, ev, rfl, hs, hv, hlen, hfree, hsq, hh, hev⟩ := hm.toShadows.cases
  exact shadows_intro hs hv hlen hfree hsq hh hev

/-- The end of the text, when no element was completed outside a list. -/
lemma shadowed_finish (hl : Shadows f l e) (helts : ¬ (l.depth = 0 ∧ 0 < l.elts))
    (hc : env.buf[l.t]? = some c) (hend : c = nul ∨ l.t = env.len) :
    ShadowStop f left (finish env.toEnv l) (env.finish e) := by
  obtain ⟨v, a, s, x, k, ev, rfl, hs, hv, hlen, hfree, hsq, hh, hev⟩ := hl.cases
  rw [finish, EventEnv.finish, if_neg helts, if_neg helts, hc]
  dsimp only
  rw [if_pos hend]
  exact ⟨rfl, rfl, by simp, hev, hsq, hh, fun _ => ⟨rfl, hs, hv, ⟨hlen, hfree⟩, rfl⟩, rfl, fun _ => rfl⟩

lemma Shadows.writing (hl : Shadows f l e) (hi : BufferInv l.toRegs)
    (hs : accumulates l.state = true) : Writing f l e := ⟨hl, hi.room, (hi.cursor hs).1⟩

/-- The flags behind a return before the end of the text, of a call that was entered with `entered`
in `squoted`. -/
def Flags.leaves (f : Flags) (entered : Bool) (env : Env) (l : Locals) : Flags :=
  if l.state = .s3 then { f with kept := if l.depth = 1 then entered else f.kept }
  else (f.next env l).cleared

lemma shadowed_switch (h : env.Succeeds) (hl : Shadows f l e) (hi : NormalHead l)
    (hstack : StackOk l.stack L) (hdepth : l.depth = L.length) (hc : env.buf[l.t]? = some c)
    (hleft : left = if l.state = .s3 then
      { f with kept := if l.depth = 1 then env.cc.squoted else f.kept }
      else (f.after env.toEnv l c).cleared) :
    Shadowed (Shadows (f.after env.toEnv l c)) (ShadowStop now left) (switch env.toEnv c l)
      (env.switch c e) := by
  have hstate : e.state = l.state := congrArg (·.state) hl.frame
  have hbuffer := hi.normal.buffer
  have htoken := hbuffer.token
  have htextual := hi.normal.textual
  have hsame : l.state ≠ .s4 → l.state ≠ .s5 → l.state ≠ .s7 → f.after env.toEnv l c = f := by
    intro h4 h5 h7
    cases hs : l.state <;> simp_all [Flags.after]
  rw [switch, EventEnv.switch, hstate, hleft]
  cases hs : l.state with
  | s1 =>
    have hu : l.valUsed = 0 := by simpa [TokenInv, hs] using htoken
    rw [hsame (by simp [hs]) (by simp [hs]) (by simp [hs])]
    exact shadowed_state1 h hl hbuffer.room hu hi.normal.mode
  | s2 =>
    rw [hsame (by simp [hs]) (by simp [hs]) (by simp [hs])]
    exact shadowed_state2 h hl hstack
  | s3 =>
    rw [hsame (by simp [hs]) (by simp [hs]) (by simp [hs]), if_pos rfl]
    exact shadowed_state3 hl hstack hdepth
  | s4 =>
    rw [if_neg (by simp)]
    exact shadowed_state4 h (hl.writing hbuffer (by rw [hs]; rfl)) hstack hs
  | s5 =>
    rw [if_neg (by simp)]
    exact shadowed_state5 h (hl.writing hbuffer (by rw [hs]; rfl)) hstack hdepth hs hc
  | s6 =>
    rw [hsame (by simp [hs]) (by simp [hs]) (by simp [hs])]
    obtain ⟨v, a, s, x, k, ev, rfl, hs, hv, hlen, hfree, hsq, hh, hev⟩ := hl.cases
    exact shadows_intro hs hv hlen hfree hsq hh hev
  | s7 =>
    have hu : l.valUsed = 0 := by simpa [TokenInv, hs] using htoken
    exact shadowed_state7 h hl hbuffer.room hu hs
  | s8 =>
    rw [hsame (by simp [hs]) (by simp [hs]) (by simp [hs]), if_neg (by simp)]
    exact shadowed_state8 h (hl.writing hbuffer (by rw [hs]; rfl)) hstack
  | s9 => simp [TokenInv, hs] at htoken
  | s10 =>
    rw [hsame (by simp [hs]) (by simp [hs]) (by simp [hs])]
    exact shadowed_state10 h (hl.writing hbuffer (by rw [hs]; rfl))
  | s11 =>
    rw [hsame (by simp [hs]) (by simp [hs]) (by simp [hs])]
    obtain ⟨v, a, s, x, k, ev, rfl, hs, hv, hlen, hfree, hsq, hh, hev⟩ := hl.cases
    exact shadows_intro hs hv hlen hfree hsq hh hev
  | s12 | s13 | s14 | s15 | unknown => simp [hs, textual] at htextual

/-- One round of both parsers. -/
theorem shadowed_round (h : env.Succeeds) (hl : Shadows f l e) (hi : NormalHead l) :
    Shadowed (Shadows (f.next env.toEnv l)) (ShadowStop f (f.leaves env.cc.squoted env.toEnv l))
      (cparseHead env.toEnv l) (env.eparseHead e) := by
  have hstate : e.state = l.state := congrArg (·.state) hl.frame
  have ht : e.t = l.t := congrArg (·.t) hl.frame
  have h15 : l.state ≠ .s15 := by
    intro hs
    have htextual := hi.normal.textual
    simp [hs, textual] at htextual
  obtain ⟨s, L, A, hshape⟩ := hi.normal.stack
  rw [cparseHead, EventEnv.eparseHead, if_neg h15, if_neg (by rwa [hstate]), Env.read, Env.read, ht]
  cases hc : env.buf[l.t]? with
  | none => exact trivial
  | some c =>
    simp only [ok_bind]
    by_cases hend : c = nul ∨ l.t = env.len
    · rw [if_pos hend, if_pos hend]
      refine shadowed_finish hl ?_ hc hend
      rintro ⟨hd, helts⟩
      have := hi.fresh hd
      omega
    · have hnext : f.next env.toEnv l = f.after env.toEnv l c := by
        rw [Flags.next, hc]
        exact if_neg hend
      rw [if_neg hend, if_neg hend, hnext]
      refine shadowed_switch h hl hi hshape.stack hshape.depth hc ?_
      rw [Flags.leaves, hnext]

end States

end Sfsexp.Proofs
