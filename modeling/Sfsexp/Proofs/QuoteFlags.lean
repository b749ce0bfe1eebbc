import Sfsexp.Proofs.EventLockstep
import Sfsexp.Proofs.Simulation
import Sfsexp.Spec.QuoteFlag

/-!
# The event-only parser keeps the quote flag

What `squoted` is in the event-only parser, round by round, is what the quote flag of the reader is,
byte by byte. A round that leaves the byte at the cursor for a later one changes the flag by as much
as the reader changes it too early.
-/

namespace Sfsexp.Proofs

open Sfsexp Spec

/-- The quote flag that the flags of a round denote. -/
def Flags.flag (f : Flags) (entered : Bool) : QuoteFlag := ⟨f.kept, entered, f.mixed⟩

section Round

variable {env : Env} {l : Locals} {c : Byte} {L : List (List Sexp)} {f g : Flags} {q : QuoteFlag}
variable {entered : Bool}

/-- What a round does to the flag: what the byte does to it, or, when the byte is left for a later
round, what the byte will not do to it any more. -/
structure FlagStep (f : Flags) (entered : Bool) (env : Env) (c : Byte) (l l' : Locals)
    (r r' : Reader) : Prop where
  take : l'.t = l.t + 1 → (f.flag entered).feed r c = (f.after env l c).flag entered
  defer : l'.t = l.t → (f.flag entered).feed r c = ((f.after env l c).flag entered).feed r' c

/-- A round that does to the flag what the byte `c` does to it, and leaves the flags `g` where it
returns. -/
abbrev KeepsFlag (f g : Flags) (entered : Bool) (env : Env) (c : Byte) (l : Locals)
    (L : List (List Sexp)) : Exec Locals → Prop :=
  Post (fun l' => ∀ L', Good l'.toRegs L' →
      FlagStep f entered env c l l' (view l.toRegs L) (view l'.toRegs L'))
    (fun R => R.cc.error ≠ .badForm → (f.flag entered).feed (view l.toRegs L) c = g.flag g.kept)
    (fun _ => True)

/-- Between tokens only the closing paren of an outermost list changes the flag. -/
lemma feed_gap {r : Reader} (hlex : r.lex = .gap) :
    q.feed r c = if c = rparen ∧ r.levels.length = 1 then { q with kept := q.entered } else q := by
  rw [QuoteFlag.feed, hlex]
  rfl

/-- The flag of two readers between tokens with equally many open lists. -/
lemma feed_gap_congr {r r' : Reader} (hlex : r.lex = .gap) (hlex' : r'.lex = .gap)
    (hlen : r'.levels.length = r.levels.length) : q.feed r c = q.feed r' c := by
  rw [feed_gap hlex, feed_gap hlex', hlen]

/-- The number of open lists in the view. -/
lemma view_lists (hi : Good l.toRegs L) :
    (view l.toRegs L).levels.length = (announced l.state).length + l.depth := by
  rw [view, hi.depth]
  simp

lemma keepsFlag_state1 (hi : Good l.toRegs L) (hs : l.state = .s1) (h : env.Succeeds) :
    KeepsFlag f g entered env c l L (state1 env c l) := by
  have hafter : f.after env l c = f := by rw [Flags.after, hs]
  have hlex : (view l.toRegs L).lex = .gap := by
    rw [view, hs]
    rfl
  have htake : c ≠ rparen → ∀ (l' : Locals), l'.t = l.t + 1 → ∀ L', Good l'.toRegs L' →
      FlagStep f entered env c l l' (view l.toRegs L) (view l'.toRegs L') := by
    intro hc l' ht L' _
    refine ⟨fun _ => ?_, fun ht' => by omega⟩
    rw [feed_gap hlex, if_neg fun hp => hc hp.1, hafter]
  rw [state1]
  split_ifs with h1 h2 h3 h4 h5 h6
  · exact htake (by rintro rfl; exact absurd h1 (by decide)) _ rfl
  · exact htake (by rw [h2]; decide) _ rfl
  · rw [fire_eq]
    exact htake (by rw [h3]; decide) _ rfl
  · intro L' hi'
    have hlists := view_lists hi
    have hlists' := view_lists hi'
    rw [hs] at hlists
    refine ⟨fun ht => absurd ht (by simp), fun _ => ?_⟩
    rw [hafter]
    exact feed_gap_congr hlex rfl (hlists'.trans hlists.symm)
  · exact htake h4 _ rfl
  · exact htake h4 _ rfl
  · obtain ⟨hu, -, -⟩ := hi.quiet_gap hs
    obtain ⟨v, a, k, hrun, -⟩ := head_ok h hi.buffer.room hu c
    rw [← bind_assoc, hrun, ok_bind]
    exact htake h4 _ rfl

lemma keepsFlag_state2 (h : env.Succeeds) (hi : Good l.toRegs L) (hs : l.state = .s2) :
    KeepsFlag f g entered env c l L (state2 env l) := by
  obtain ⟨s, k, hrun, -⟩ := state2_ok h hi.stack
  have hlists := view_lists hi
  rw [hs] at hlists
  rw [hrun]
  intro L' hi'
  have hlists' := view_lists hi'
  refine ⟨fun ht => absurd ht (by simp), fun _ => ?_⟩
  rw [Flags.after, hs]
  refine feed_gap_congr (by rw [view, hs]; rfl) rfl (hlists'.trans ?_)
  rw [hlists]
  simp [announced, Nat.add_comm]

lemma keepsFlag_state3 (hi : Good l.toRegs L) (hs : l.state = .s3) (hc : c = rparen)
    (hg : g = { f with kept := if l.depth = 1 then entered else f.kept }) :
    KeepsFlag f g entered env c l L (state3 l) := by
  have hafter : f.after env l c = f := by rw [Flags.after, hs]
  have hlists := view_lists hi
  have hfeed := @feed_gap c (f.flag entered) (view l.toRegs L) (by rw [view, hs]; rfl)
  have hdepth := hi.depth
  rw [hs] at hlists
  rcases L with _ | ⟨T, _ | ⟨T', Ls⟩⟩
  · rw [state3_bad hdepth]
    exact fun hbad => absurd rfl hbad
  · obtain ⟨s, hrun, -⟩ := state3_outer hi.stack hdepth
    rw [hrun]
    intro _
    have hone : l.depth = 1 := hdepth
    rw [hone] at hlists
    rw [hfeed, if_pos ⟨hc, hlists⟩, hg, if_pos hone]
    rfl
  · obtain ⟨s, hrun, -⟩ := state3_inner hi.stack hdepth
    rw [hrun]
    refine fun L' _ => ⟨fun _ => ?_, fun ht => absurd ht (by simp)⟩
    have hmany : l.depth = Ls.length + 2 := hdepth
    rw [hmany] at hlists
    rw [hfeed, if_neg, hafter]
    rintro ⟨-, hlen⟩
    rw [hlists] at hlen
    simp [announced] at hlen

lemma flag_report (hsq : f.squoted = l.squoted) :
    (f.flag entered).report (view l.toRegs L) = f.report.flag entered := by
  have hsq' : (view l.toRegs L).squoted = f.squoted := hsq.symm
  rw [QuoteFlag.report, hsq']
  rfl

lemma staysBare {esc : Bool} : ((esc && isEscapable c) || isAtomByte c) = !endsBare esc c := by
  rw [endsBare, ← Bool.not_or, Bool.not_not]

/-- The flag behind a bare atom that ends in front of the byte `c`. -/
lemma feed_endsBare (hs : l.state = .s4) (hsq : f.squoted = l.squoted)
    (hends : endsBare l.esc c = true) :
    (f.flag entered).feed (view l.toRegs L) c =
      ((f.report.cleared.flag entered).leave (view l.toRegs L)).feedGap (view l.toRegs L) c := by
  have hlex : (view l.toRegs L).lex = .bare := by
    rw [view, hs]
    rfl
  have hgo : (((view l.toRegs L).esc && isEscapable c) || isAtomByte c) = false := by
    have hesc : (view l.toRegs L).esc = l.esc := rfl
    rw [hesc, staysBare, hends]
    rfl
  rw [QuoteFlag.feed, hlex]
  dsimp only
  rw [QuoteFlag.feedBare, hgo, if_neg Bool.false_ne_true, flag_report hsq]
  rfl

lemma keepsFlag_endBare (h : env.Succeeds) (hi : Good l.toRegs L) (hs : l.state = .s4)
    (hsq : f.squoted = l.squoted) (hends : endsBare l.esc c = true)
    (hg : g = (f.after env l c).cleared) : KeepsFlag f g entered env c l L (endBare env c l) := by
  obtain ⟨hv, -⟩ := hi.buffer.cursor (by simp [hs, accumulates])
  have hr := hi.buffer.room
  have hlt : l.vcur < l.val.length := by
    rw [hv, hr.cells]
    exact hr.free
  have hafter : f.after env l c = f.report.cleared := by
    rw [Flags.after, hs]
    exact if_pos hends
  have hlists := view_lists hi
  have hfeed := @feed_endsBare l c L f entered hs hsq hends
  rw [hs] at hlists
  cases L with
  | nil =>
    have hlevels : (view l.toRegs []).levels = [] := by
      rw [view, hs]
      rfl
    rw [endBare_top h hlt hi.stack]
    intro _
    rw [hfeed, QuoteFlag.leave, if_pos hlevels, QuoteFlag.feedGap, hlevels, if_neg (by simp), hg,
      hafter]
    rfl
  | cons T Ls =>
    obtain ⟨s, hrun, -⟩ := endBare_open h hlt hi.stack
    have hlevels : (view l.toRegs (T :: Ls)).levels ≠ [] := by
      rw [view, hs]
      simp [announced]
    rw [QuoteFlag.leave, if_neg hlevels] at hfeed
    rw [hrun, afterBare]
    split_ifs with hw hp
    · refine fun L' _ => ⟨fun _ => ?_, fun ht => absurd ht (by simp [emitted])⟩
      have hc : c ≠ rparen := by
        rintro rfl
        exact absurd hw (by decide)
      rw [hfeed, hafter, QuoteFlag.feedGap, if_neg fun hp => hc hp.1]
    all_goals
      refine fun L' hi' => ⟨fun ht => absurd ht (by simp [emitted]), fun _ => ?_⟩
      have hlists' := view_lists hi'
      rw [hfeed, hafter, QuoteFlag.feedGap, feed_gap rfl, hlists', hlists]
      rfl

lemma keepsFlag_state4 (h : env.Succeeds) (hi : Good l.toRegs L) (hs : l.state = .s4)
    (hsq : f.squoted = l.squoted) (hg : g = (f.after env l c).cleared) :
    KeepsFlag f g entered env c l L (state4 env c l) := by
  obtain ⟨hv, -⟩ := hi.buffer.cursor (by simp [hs, accumulates])
  have hr := hi.buffer.room
  have hlex : (view l.toRegs L).lex = .bare := by
    rw [view, hs]
    rfl
  have hstays : endsBare l.esc c = false →
      (f.flag entered).feed (view l.toRegs L) c = (f.after env l c).flag entered := by
    intro hends
    have hgo : (((view l.toRegs L).esc && isEscapable c) || isAtomByte c) = true := by
      have hesc : (view l.toRegs L).esc = l.esc := rfl
      rw [hesc, staysBare, hends]
      rfl
    rw [QuoteFlag.feed, hlex]
    dsimp only
    rw [QuoteFlag.feedBare, if_pos hgo, Flags.after, hs]
    dsimp only
    rw [if_neg (by simp [hends])]
  rw [state4]
  by_cases hpair : (l.esc && isEscapable c) = true
  · rw [if_pos hpair]
    rcases @overwrite_cases l c hr hv with ⟨-, hrun⟩ | ⟨v, hrun, -⟩
    · rw [hrun]
      trivial
    · rw [hrun]
      refine fun L' _ => ⟨fun _ => hstays (by rw [endsBare, hpair]; rfl), fun ht => ?_⟩
      exact absurd ht (by simp)
  · rw [if_neg hpair]
    rw [Bool.not_eq_true] at hpair
    by_cases hatom : isAtomByte c = true
    · obtain ⟨v, a, k, hrun, -⟩ := storeEsc_ok h hr hv c
      rw [if_pos hatom, hrun, ok_bind]
      refine fun L' _ => ⟨fun _ => hstays (by rw [endsBare, hatom]; simp), fun ht => ?_⟩
      exact absurd ht (by simp)
    · rw [if_neg hatom]
      rw [Bool.not_eq_true] at hatom
      exact keepsFlag_endBare h hi hs hsq (by rw [endsBare, hpair, hatom]; rfl) hg

lemma keepsFlag_state6 (hi : Good l.toRegs L) (hs : l.state = .s6) :
    KeepsFlag f g entered env c l L (.ok { l with vcur := 0, state := .s1 }) := by
  have hlists := view_lists hi
  rw [hs] at hlists
  intro L' hi'
  refine ⟨fun ht => absurd ht (by simp), fun _ => ?_⟩
  rw [Flags.after, hs]
  exact feed_gap_congr (by rw [view, hs]; rfl) rfl ((view_lists hi').trans hlists.symm)

/-- The flag of two readers in a bare atom that differ in the text and the elements of the lists. -/
lemma feedBare_congr {r r' : Reader} (hsq : r'.squoted = r.squoted) (hesc : r'.esc = r.esc)
    (hlen : r'.levels.length = r.levels.length) : q.feedBare r c = q.feedBare r' c := by
  have hnil : r'.levels = [] ↔ r.levels = [] := by
    rw [← List.length_eq_zero_iff, ← List.length_eq_zero_iff, hlen]
  simp only [QuoteFlag.feedBare, QuoteFlag.report, QuoteFlag.leave, QuoteFlag.feedGap, hsq, hesc,
    hlen, hnil]

lemma keepsFlag_state7 (h : env.Succeeds) (hi : Good l.toRegs L) (hs : l.state = .s7) :
    KeepsFlag f g entered env c l L (state7 env c l) := by
  have hu : l.valUsed = 0 := by simpa [TokenInv, hs] using hi.buffer.token
  have hlists := view_lists hi
  rw [hs] at hlists
  have hfeed : (f.flag entered).feed (view l.toRegs L) c =
      (f.flag entered).feedTick (view l.toRegs L) c := by
    rw [QuoteFlag.feed, view, hs]
    rfl
  have hafter : f.after env l c =
      if c = lparen then f else { f with squoted := true, kept := true } := by
    rw [Flags.after, hs]
  rw [state7]
  split_ifs with hquote hparen
  · obtain ⟨v, a, k, hrun, -⟩ := store_ok h
      (l := { l with state := .s5, vcur := 0, t := l.t + 1 })
      (hi.buffer.room.same ⟨rfl, rfl, rfl⟩) hu.symm dquote
    rw [hrun, ok_bind]
    refine fun L' _ => ⟨fun _ => ?_, fun ht => absurd ht (by simp)⟩
    rw [hfeed, QuoteFlag.feedTick, if_pos hquote, hafter, if_neg (by rw [hquote]; decide)]
    rfl
  · refine fun L' _ => ⟨fun ht => absurd ht (by simp), fun _ => ?_⟩
    have hlist : ∀ r : Reader, (f.flag entered).feedQuotedList r c = f.flag entered := by
      intro r
      have hclose : ¬ (c = rparen ∧ r.qdepth - 1 = 0) := by
        rw [hparen]
        exact fun hp => absurd hp.1 (by decide)
      rw [QuoteFlag.feedQuotedList, if_neg hclose, ite_self]
    rw [hfeed, QuoteFlag.feedTick, if_neg hquote, if_pos hparen, hafter, if_pos hparen]
    exact (hlist _).symm
  · refine fun L' hi' => ⟨fun ht => absurd ht (by simp), fun _ => ?_⟩
    rw [hfeed, QuoteFlag.feedTick, if_neg hquote, if_neg hparen, hafter, if_neg hparen]
    exact feedBare_congr rfl rfl ((view_lists hi').trans hlists.symm)

/-- A round that always steps over the byte, told by what the reader puts out. -/
lemma keepsFlag_of_reads {x : Exec Locals} {d : Nat} (hreads : Reads c l (view l.toRegs L) x)
    (hmoves : Moves l d x) (hrank : rank l.state = 0)
    (hstay : ((view l.toRegs L).feed c).1 = [] →
      (f.flag entered).feed (view l.toRegs L) c = (f.after env l c).flag entered)
    (hleave : ((view l.toRegs L).feed c).1 ≠ [] →
      (f.flag entered).feed (view l.toRegs L) c = g.flag g.kept) :
    KeepsFlag f g entered env c l L x := by
  match x, hreads, hmoves with
  | .ok l', ⟨_, _, hfollows⟩, ⟨_, hdown⟩ =>
    refine fun L'' _ => ⟨fun ht => hstay ?_, fun ht => ?_⟩
    · cases hfollows with
      | take _ hfeed _ => rw [hfeed]
      | defer ht' _ _ => omega
    · have hlow := hdown ht
      omega
  | .error (.ret R), hyields, _ =>
    intro hbad
    cases hyields with
    | take y _ hfeed => exact hleave (by rw [hfeed]; simp)
    | defer y _ hfeed => exact hleave (by rw [hfeed]; simp)
    | bad hr _ => exact absurd hr.error hbad
  | .error (.fault _), _, _ => trivial

/-- The end of a token puts something out when no list is open. -/
lemma finishAtom_nil {r : Reader} {aty : AtomT} : (r.finishAtom aty).1 = [] ↔ r.levels ≠ [] := by
  rw [Reader.finishAtom]
  cases hl : r.levels with
  | nil => simp
  | cons T Ls => simp

lemma leave_open {r : Reader} (h : r.levels ≠ []) : q.leave r = q := if_neg h

lemma leave_top {r : Reader} (h : r.levels = []) :
    q.leave r = { q with kept := false, entered := false } := if_pos h

lemma view_levels_nil (hi : Good l.toRegs L) (hs : l.state ≠ .s2) :
    (view l.toRegs L).levels = [] ↔ l.depth = 0 := by
  have hlists := view_lists hi
  rw [announced, if_neg hs, List.length_nil, Nat.zero_add] at hlists
  rw [← List.length_eq_zero_iff, hlists]

lemma keepsFlag_state5Rest (h : env.Succeeds) (hc : c ≠ nul) (hi : GoodHead l L) (hs : l.state = .s5)
    (hesc : (l.esc && isEscapable c) = false) (hget : env.buf[l.t]? = some c)
    (hsq : f.squoted = l.squoted) (hg : g = (f.after env l c).cleared) :
    KeepsFlag f g entered env c l L (state5Rest env c l) := by
  have hlex : (view l.toRegs L).lex = .quoted := by
    rw [view, hs]
    rfl
  have hesc' : ((view l.toRegs L).esc && isEscapable c) = false := hesc
  have hcloses := closesString_iff hs hget
  rw [hesc, if_neg Bool.false_ne_true] at hcloses
  have hafter : f.after env l c = if c = dquote then f.stringEnd l.depth else f := by
    rw [Flags.after, hs]
    simp only [hcloses]
  have hnil := view_levels_nil hi.good (by simp [hs])
  have hfeed : (f.flag entered).feed (view l.toRegs L) c =
      if c = dquote then (f.report.flag entered).leave (view l.toRegs L) else f.flag entered := by
    rw [QuoteFlag.feed, hlex]
    dsimp only
    rw [QuoteFlag.feedQuoted, hesc', if_neg Bool.false_ne_true, flag_report hsq]
  have hread : (view l.toRegs L).feed c = (view l.toRegs L).feedQuoted c := by
    simp [Reader.feed, Reader.feedLex, view, hs, lexOf]
  have hout : c = dquote →
      (((view l.toRegs L).feed c).1 = [] ↔ (view l.toRegs L).levels ≠ []) := by
    intro hd
    rw [hread, Reader.feedQuoted, hesc', if_neg Bool.false_ne_true, if_pos hd]
    split_ifs <;> exact finishAtom_nil
  have hrank : rank l.state = 0 := by rw [hs]; rfl
  refine keepsFlag_of_reads (reads_state5Rest h hc hi hs hesc)
    (moves_state5Rest (Nat.le_refl l.t) (Nat.le_refl (l.t + 1)) hs) hrank ?_ ?_
  · intro hsilent
    rw [hfeed, hafter]
    split_ifs with hd
    · have hopen := (hout hd).mp hsilent
      rw [leave_open hopen, Flags.stringEnd, if_neg (mt hnil.mpr hopen)]
      rfl
    · rfl
  · intro hloud
    by_cases hd : c = dquote
    · have htop : (view l.toRegs L).levels = [] := not_not.mp (mt (hout hd).mpr hloud)
      rw [hfeed, hg, hafter, if_pos hd, if_pos hd, leave_top htop, Flags.stringEnd,
        if_pos (hnil.mp htop)]
      rfl
    · refine absurd ?_ hloud
      rw [hread, Reader.feedQuoted, hesc', if_neg Bool.false_ne_true, if_neg hd]

/-- The last paren of a quoted list. -/
lemma keepsFlag_state8 (h : env.Succeeds) (hc : c ≠ nul) (hi : GoodHead l L) (hs : l.state = .s8)
    (hg : g = (f.after env l c).cleared) : KeepsFlag f g entered env c l L (state8 env c l) := by
  have hafter : f.after env l c = f := by rw [Flags.after, hs]
  have hread : (view l.toRegs L).feed c = (view l.toRegs L).feedQuotedList c := by
    simp [Reader.feed, Reader.feedLex, view, hs, lexOf]
  have hfeed : (f.flag entered).feed (view l.toRegs L) c =
      (f.flag entered).feedQuotedList (view l.toRegs L) c := by
    rw [QuoteFlag.feed, view, hs]
    rfl
  have hrank : rank l.state = 0 := by rw [hs]; rfl
  by_cases hends : (view l.toRegs L).esc = false ∧ c = rparen ∧ (view l.toRegs L).qdepth - 1 = 0
  · obtain ⟨hesc, hparen, hdepth⟩ := hends
    have hnesc : ¬ (view l.toRegs L).esc = true := by simp [hesc]
    have hout : ((view l.toRegs L).feed c).1 = [] ↔ (view l.toRegs L).levels ≠ [] := by
      rw [hread, Reader.feedQuotedList, if_neg hnesc, if_neg (by rw [hparen]; decide), if_pos hparen,
        if_pos hdepth]
      exact finishAtom_nil
    rw [QuoteFlag.feedQuotedList, if_neg hnesc, if_pos ⟨hparen, hdepth⟩] at hfeed
    refine keepsFlag_of_reads (reads_state8 h hc hi hs) (moves_state8 hs) hrank ?_ ?_
    · intro hsilent
      rw [hfeed, leave_open (hout.mp hsilent), hafter]
    · intro hloud
      rw [hfeed, leave_top (not_not.mp (mt hout.mpr hloud)), hg, hafter]
      rfl
  · have hkeeps : (f.flag entered).feedQuotedList (view l.toRegs L) c = f.flag entered := by
      rw [QuoteFlag.feedQuotedList]
      split_ifs with hesc hclose
      · rfl
      · exact absurd ⟨eq_false_of_ne_true hesc, hclose⟩ hends
      · rfl
    have hsilent : ((view l.toRegs L).feed c).1 = [] := by
      rw [hread, Reader.feedQuotedList]
      split_ifs with hesc h1 h2 h3 h4 <;> try rfl
      exact absurd ⟨eq_false_of_ne_true hesc, h2, h3⟩ hends
    refine keepsFlag_of_reads (reads_state8 h hc hi hs) (moves_state8 hs) hrank ?_ ?_
    · intro _
      rw [hfeed, hkeeps, hafter]
    · exact fun hloud => absurd hsilent hloud

/-- Inside a comment, or inside double quotes of a quoted list, no byte changes the flag. -/
lemma keepsFlag_quiet {x : Exec Locals} (hreads : Reads c l (view l.toRegs L) x) (hmoves : Moves l 1 x)
    (hs : l.state = .s10 ∨ l.state = .s11) : KeepsFlag f g entered env c l L x := by
  have hfeed : (f.flag entered).feed (view l.toRegs L) c = f.flag entered := by
    rw [QuoteFlag.feed, view]
    rcases hs with hs | hs <;> rw [hs] <;> rfl
  have hafter : f.after env l c = f := by
    rw [Flags.after]
    rcases hs with hs | hs <;> rw [hs]
  have hsilent : ((view l.toRegs L).feed c).1 = [] := by
    rcases hs with hs | hs
    · have hread : (view l.toRegs L).feed c = (view l.toRegs L).feedQuotedString c := by
        simp [Reader.feed, Reader.feedLex, view, hs, lexOf]
      rw [hread, Reader.feedQuotedString]
      split_ifs <;> rfl
    · simp [Reader.feed, Reader.feedLex, view, hs, lexOf]
  have hrank : rank l.state = 0 := by rcases hs with hs | hs <;> rw [hs] <;> rfl
  refine keepsFlag_of_reads hreads hmoves hrank (fun _ => ?_) fun hloud => absurd hsilent hloud
  rw [hfeed, hafter]

lemma keepsFlag_switch (h : env.Succeeds) (hc : c ≠ nul) (hi : GoodHead l L)
    (h3 : l.state = .s3 → c = rparen) (h5 : l.state = .s5 → (l.esc && isEscapable c) = false)
    (hget : env.buf[l.t]? = some c) (hsq : f.squoted = l.squoted)
    (hg : g = if l.state = .s3 then { f with kept := if l.depth = 1 then entered else f.kept }
      else (f.after env l c).cleared) :
    KeepsFlag f g entered env c l L (switch env c l) := by
  rw [switch]
  cases hs : l.state with
  | s1 => exact keepsFlag_state1 hi.good hs h
  | s2 => exact keepsFlag_state2 h hi.good hs
  | s3 => exact keepsFlag_state3 hi.good hs (h3 hs) (by rwa [if_pos hs] at hg)
  | s4 => exact keepsFlag_state4 h hi.good hs hsq (by rwa [if_neg (by simp [hs])] at hg)
  | s5 =>
    have hrest : KeepsFlag f g entered env c l L (state5Rest env c l) :=
      keepsFlag_state5Rest h hc hi hs (h5 hs) hget hsq (by rwa [if_neg (by simp [hs])] at hg)
    rwa [state5, h5 hs]
  | s6 => exact keepsFlag_state6 hi.good hs
  | s7 => exact keepsFlag_state7 h hi.good hs
  | s8 => exact keepsFlag_state8 h hc hi hs (by rwa [if_neg (by simp [hs])] at hg)
  | s10 => exact keepsFlag_quiet (reads_state10 h hc hi hs) (moves_state10 hs) (.inl hs)
  | s11 => exact keepsFlag_quiet (reads_state11 hi hs) moves_state11 (.inr hs)
  | s9 => exact absurd hi.good.buffer.token (by simp [TokenInv, hs])
  | unknown => exact absurd hi.good.buffer.token (by simp [TokenInv, hs])
  | s12 => exact absurd hs hi.good.textual.1
  | s13 => exact absurd hs hi.good.textual.2.1
  | s14 => exact absurd hs hi.good.textual.2.2.1
  | s15 => exact absurd hs hi.good.textual.2.2.2

section Follow

variable {r r' : Reader} {out : List Tree} {w : List Byte}

lemma follow_ok (h : r.feed c = (out, .ok r')) : q.follow r (c :: w) = (q.feed r c).follow r' w := by
  rw [QuoteFlag.follow, h]

lemma follow_error {e : ReadErr} (h : r.feed c = (out, .error e)) :
    q.follow r (c :: w) = q.feed r c := by
  rw [QuoteFlag.follow, h]

/-- Two readers that go on alike have the same flag behind the word. -/
lemma follow_congr {q' : QuoteFlag} (hread : (r.feed c).2 = (r'.feed c).2)
    (hflag : q.feed r c = q'.feed r' c) : q.follow r (c :: w) = q'.follow r' (c :: w) := by
  rw [QuoteFlag.follow, QuoteFlag.follow, hread, hflag]

lemma flag_at_start : q.feed Reader.start c = q := by
  rw [feed_gap rfl]
  exact if_neg fun h => absurd h.2 (by decide)

lemma escape_good : r.escape c ≠ ([], .error .badForm) := by
  rw [Reader.escape]
  split <;> simp

lemma finishAtom_good {aty : AtomT} : r.finishAtom aty ≠ ([], .error .badForm) := by
  rw [Reader.finishAtom]
  split <;> simp

lemma feedGap_good (h : r.levels ≠ []) : r.feedGap c ≠ ([], .error .badForm) := by
  rw [Reader.feedGap]
  split_ifs <;> try simp
  split
  · exact absurd ‹_› h
  · simp
  · simp

lemma feedBare_good : r.feedBare c ≠ ([], .error .badForm) := by
  rw [Reader.feedBare]
  generalize (if r.squoted then AtomT.squote else AtomT.basic) = aty
  split_ifs
  · exact escape_good
  · simp
  · rw [Reader.finishAtom]
    cases r.levels with
    | nil => simp
    | cons T Ls => exact feedGap_good (List.cons_ne_nil _ _)

lemma feedQuoted_good : r.feedQuoted c ≠ ([], .error .badForm) := by
  rw [Reader.feedQuoted]
  split_ifs
  · exact escape_good
  · exact finishAtom_good
  · exact finishAtom_good
  · simp

lemma feedQuotedList_good : r.feedQuotedList c ≠ ([], .error .badForm) := by
  rw [Reader.feedQuotedList]
  split_ifs <;> try simp
  exact finishAtom_good

lemma feedTick_good : r.feedTick c ≠ ([], .error .badForm) := by
  rw [Reader.feedTick]
  split_ifs
  · simp
  · exact feedQuotedList_good
  · exact feedBare_good

/-- Only between tokens a closing paren has no opening one. -/
lemma lex_of_badForm (h : r.feed c = ([], .error .badForm)) : r.lex = .gap := by
  rw [Reader.feed, Reader.feedLex] at h
  cases hl : r.lex <;> simp only [hl] at h
  · rfl
  · simp at h
  · exact absurd h feedBare_good
  · exact absurd h feedQuoted_good
  · exact absurd h feedTick_good
  · exact absurd h feedQuotedList_good
  · rw [Reader.feedQuotedString] at h
    split_ifs at h <;> simp at h

end Follow

end Round

section Chunk

variable {env : Env} {chunk : List Byte} {l : Locals} {c : Byte} {L : List (List Sexp)}
variable {f g now : Flags} {entered : Bool} {Q : QuoteFlag}

/-- At a loop head the flag is about to become `Q` behind the chunk, or the cursor is already behind
the chunk. -/
def Following (chunk : List Byte) (Q : QuoteFlag) (f : Flags) (entered : Bool) (env : Env)
    (l : Locals) : Prop :=
  (∃ L, GoodHead l L ∧ l.t ≤ chunk.length ∧
      (l.state = .s3 → l.t < chunk.length ∧ env.buf[l.t]? = some rparen) ∧
      (f.flag entered).follow (view l.toRegs L) (chunk.drop l.t) = Q) ∨
    l.t = chunk.length + 1 ∧ l.state = .s5

/-- A return with the flags `g`, behind which the rest of the chunk leads to `Q`. -/
structure FlagLeft (chunk : List Byte) (Q : QuoteFlag) (g : Flags) (entered : Bool) (R : Return) :
    Prop where
  more : R.cc.error ≠ .badForm → R.cc.lastPos = none → Q = g.flag entered
  again : R.cc.error ≠ .badForm → ∀ p, R.cc.lastPos = some p →
    Q = (g.flag g.kept).follow Reader.start (chunk.drop p)
  bad : R.cc.error = .badForm → Q.mixed = g.mixed

/-- A round that leads to `Q`. -/
abbrev LeadsTo (chunk : List Byte) (Q : QuoteFlag) (f now g : Flags) (entered : Bool) (env : Env) :
    Exec Locals → Prop :=
  Post (Following chunk Q f entered env)
    (fun R => FlagLeft chunk Q (onReturn now g R.cc.lastPos) entered R) fun _ => True

lemma flagLeft_tree {y : Sexp} {p : Nat} {R : Return} (hr : TreeReturn y p R)
    (hQ : Q = (g.flag g.kept).follow Reader.start (chunk.drop p)) :
    FlagLeft chunk Q (onReturn now g R.cc.lastPos) entered R := by
  have hpos := hr.lastPos
  rw [hpos]
  refine ⟨fun _ hnone => ?_, fun _ p' hp' => ?_, fun hbad => ?_⟩
  · rw [hpos] at hnone
    cases hnone
  · obtain rfl : p = p' := Option.some.inj (hpos.symm.trans hp')
    exact hQ
  · rw [hr.error] at hbad
    cases hbad

lemma leadsTo_of_reads {x : Exec Locals} (hb : Holding env chunk [nul]) (ht : l.t < chunk.length)
    (hc : chunk.get ⟨l.t, ht⟩ = c) (hreads : Reads c l (view l.toRegs L) x)
    (hflag : KeepsFlag f g entered env c l L x)
    (hQ : (f.flag entered).follow (view l.toRegs L) (chunk.drop l.t) = Q)
    (hnow : now.mixed = f.mixed) (hbad : lexOf l.state = .gap → g.mixed = f.mixed) :
    LeadsTo chunk Q (f.after env l c) now g entered env x := by
  have hu : chunk.drop l.t = c :: chunk.drop (l.t + 1) := by
    rw [Holding.drop_cons ht, hc]
  rw [hu] at hQ
  match x, hreads, hflag with
  | .ok l', ⟨L', hgood, hfollows⟩, hstep =>
    obtain ⟨htake, hdefer⟩ := hstep L' hgood.good
    refine .inl ⟨L', hgood, ?_⟩
    cases hfollows with
    | take ht' hfeed h3 =>
      rw [follow_ok hfeed, htake ht'] at hQ
      rw [ht']
      exact ⟨ht, fun hs => absurd hs h3, hQ⟩
    | defer ht' hfeed h3 =>
      rw [follow_congr (congrArg Prod.snd hfeed) (hdefer ht')] at hQ
      rw [ht', hu]
      refine ⟨Nat.le_of_lt ht, fun hs => ⟨ht, ?_⟩, hQ⟩
      rw [hb.get_lt ht, hc, h3 hs]
  | .error (.ret R), hyields, hleft =>
    cases hyields with
    | take y hr hfeed =>
      refine flagLeft_tree hr ?_
      rw [← hQ, follow_ok hfeed, hleft (by simp [hr.error])]
    | defer y hr hfeed =>
      refine flagLeft_tree hr ?_
      rw [← hQ, hu]
      refine follow_congr ?_ ((hleft (by simp [hr.error])).trans flag_at_start.symm)
      rw [hfeed]
    | bad hr hfeed =>
      refine ⟨fun hgood => absurd hr.error hgood, fun hgood => absurd hr.error hgood, fun _ => ?_⟩
      have hlex : lexOf l.state = .gap := lex_of_badForm hfeed
      rw [← hQ, follow_error hfeed, feed_gap hlex]
      have hmixed : (onReturn now g R.cc.lastPos).mixed = f.mixed := by
        cases R.cc.lastPos with
        | none => exact hnow
        | some p => exact hbad hlex
      rw [hmixed]
      split_ifs <;> rfl
  | .error (.fault _), _, _ => trivial

lemma leadsTo_finish (hb : Holding env chunk [nul]) (hi : GoodHead l L) (ht : l.t = chunk.length)
    (hQ : (f.flag entered).follow (view l.toRegs L) (chunk.drop l.t) = Q) :
    LeadsTo chunk Q now f g entered env (cparseHead env l) := by
  obtain ⟨c, hc, hnul⟩ := hb.get_end
  have hopen : ¬ (l.depth = 0 ∧ 0 < l.elts) := by
    rintro ⟨hd, he⟩
    have hfresh := hi.fresh (List.eq_nil_of_length_eq_zero (hi.good.depth.symm.trans hd))
    omega
  have hend : c = nul ∨ chunk.length = env.len := .inl (hnul rfl)
  rw [ht, List.drop_length, QuoteFlag.follow] at hQ
  rw [cparseHead, if_neg hi.good.textual.2.2.2, Env.read, ht, hc, ok_bind, if_pos hend, finish,
    if_neg hopen, ht, hc]
  dsimp only
  rw [if_pos hend]
  refine ⟨fun _ _ => hQ.symm, fun _ p hp => ?_, fun hbad => ?_⟩
  · cases hp
  · cases hbad

lemma overwrite_squoted {l' : Locals} (h : overwrite c l = .ok l') : l'.squoted = l.squoted := by
  rw [overwrite] at h
  split at h
  · cases h
  · split_ifs at h
    cases h
    rfl

/-- The round of an escaped byte inside double quotes also reads the byte behind it. -/
lemma leadsTo_pair (hb : Holding env chunk [nul]) (hi : GoodHead l L) (ht : l.t < chunk.length)
    (hs : l.state = .s5) (hp : (l.esc && isEscapable (chunk.get ⟨l.t, ht⟩)) = true)
    (hsq : f.squoted = l.squoted) (hnow : now.mixed = f.mixed)
    (hQ : (f.flag entered).follow (view l.toRegs L) (chunk.drop l.t) = Q) :
    LeadsTo chunk Q (f.after env l (chunk.get ⟨l.t, ht⟩)) now
      (f.after env l (chunk.get ⟨l.t, ht⟩)).cleared entered env
      (state5 env (chunk.get ⟨l.t, ht⟩) l) := by
  have hkeeps : (f.flag entered).feed (view l.toRegs L) (chunk.get ⟨l.t, ht⟩) = f.flag entered := by
    rw [QuoteFlag.feed, view, hs]
    exact if_pos hp
  rw [Holding.drop_cons ht] at hQ
  rw [state5, if_pos hp]
  rcases escaped_pair (hb.ne_nul ht) hi hs hp with
    ⟨hrun, -⟩ | ⟨l₁, hrun, hi₁, ht₁, hs₁, he₁, hfeed⟩
  · rw [hrun]
    trivial
  · rw [follow_ok hfeed, hkeeps] at hQ
    rw [hrun, ok_bind, Env.read]
    by_cases hlast : l.t + 1 = chunk.length
    · obtain ⟨c, hc, hnul⟩ := hb.get_end
      obtain ⟨hv, -⟩ := hi₁.good.buffer.cursor (by simp [hs₁, accumulates])
      obtain ⟨v, a, k, hstore, -⟩ := store_ok hb.alloc hi₁.good.buffer.room hv nul
      rw [ht₁, hlast, hc, hnul rfl, ok_bind, state5Rest, if_neg (by decide), hstore]
      exact .inr ⟨by simp [ht₁, hlast], hs₁⟩
    · have hlt : l₁.t < chunk.length := by omega
      have hget := hb.get_lt hlt
      have hesc₁ : (l₁.esc && isEscapable (chunk.get ⟨l₁.t, hlt⟩)) = false := by simp [he₁]
      have hdepth : l₁.depth = l.depth := hi₁.good.depth.trans hi.good.depth.symm
      have hsq₁ : f.squoted = l₁.squoted := hsq.trans (overwrite_squoted hrun).symm
      have hafter : f.after env l (chunk.get ⟨l.t, ht⟩) = f.after env l₁ (chunk.get ⟨l₁.t, hlt⟩) := by
        rw [Flags.after, Flags.after, hs, hs₁]
        have hcloses := closesString_iff hs (hb.get_lt ht)
        have hcloses₁ := closesString_iff hs₁ hget
        rw [if_pos hp, ← ht₁, hget, Option.some_inj] at hcloses
        rw [hesc₁, if_neg Bool.false_ne_true] at hcloses₁
        simp only [hcloses, hcloses₁, hdepth]
      rw [hget, ok_bind, hafter]
      refine leadsTo_of_reads hb hlt rfl (reads_state5Rest hb.alloc (hb.ne_nul hlt) hi₁ hs₁ hesc₁)
        (keepsFlag_state5Rest hb.alloc (hb.ne_nul hlt) hi₁ hs₁ hesc₁ hget hsq₁ rfl) ?_ hnow ?_
      · -- the reader forgets with the next byte that there was a pair
        rw [← hQ, ← ht₁, Holding.drop_cons hlt]
        exact follow_congr rfl rfl
      · rw [hs₁]
        exact fun hgap => by cases hgap

/-- One round leads to where the reader gets the flag. -/
theorem leadsTo_round (hb : Holding env chunk [nul]) (hsq : f.squoted = l.squoted)
    (h : Following chunk Q f entered env l) :
    LeadsTo chunk Q (f.next env l) f (f.leaves entered env l) entered env (cparseHead env l) := by
  rcases h with ⟨L, hi, hle, h3, hQ⟩ | ⟨ht, hs⟩
  · by_cases hend : l.t = chunk.length
    · exact leadsTo_finish hb hi hend hQ
    · have ht : l.t < chunk.length := Nat.lt_of_le_of_ne hle hend
      have hne := hb.ne_nul ht
      have hget := hb.get_lt ht
      have hgo : ¬ (chunk.get ⟨l.t, ht⟩ = nul ∨ l.t = env.len) := by
        rintro (h | h)
        · exact hne h
        · have hlen := hb.len
          omega
      have hnext : f.next env l = f.after env l (chunk.get ⟨l.t, ht⟩) := by
        rw [Flags.next, hget]
        exact if_neg hgo
      rw [cparseHead, if_neg hi.good.textual.2.2.2, Env.read, hget, ok_bind, if_neg hgo, hnext]
      by_cases hpair : l.state = .s5 ∧ (l.esc && isEscapable (chunk.get ⟨l.t, ht⟩)) = true
      · rw [Flags.leaves, if_neg (by simp [hpair.1]), hnext, switch, hpair.1]
        exact leadsTo_pair hb hi ht hpair.1 hpair.2 hsq rfl hQ
      · have h5 : l.state = .s5 → (l.esc && isEscapable (chunk.get ⟨l.t, ht⟩)) = false :=
          fun hs => eq_false_of_ne_true fun hp => hpair ⟨hs, hp⟩
        have hparen : l.state = .s3 → chunk.get ⟨l.t, ht⟩ = rparen :=
          fun hs => Option.some.inj (hget.symm.trans (h3 hs).2)
        refine leadsTo_of_reads hb ht rfl (reads_switch hb.alloc hne hi hparen h5)
          (keepsFlag_switch hb.alloc hne hi hparen h5 hget hsq ?_) hQ rfl ?_
        · rw [Flags.leaves, hnext]
        · intro hgap
          rw [Flags.leaves, hnext, Flags.after]
          cases hs : l.state <;> simp [hs, lexOf] at hgap ⊢ <;> rfl
  · have hnone : env.buf[l.t]? = none := by
      rw [hb.buf, ht]
      simp
    rw [cparseHead, if_neg (by simp [hs]), Env.read, hnone]
    trivial

end Chunk

end Sfsexp.Proofs
