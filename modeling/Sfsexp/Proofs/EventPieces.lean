import Sfsexp.Proofs.EventChunks
import Sfsexp.Proofs.LastByte
import Sfsexp.Proofs.Places

/-!
# Reading in mode `PARSER_EVENTS_ONLY`

The event-only parser leaves no expression in `last_sexp`. So `read_one_sexp` goes on with the next
piece, and passes it from where the expression before ended in the last one.
-/

namespace Sfsexp.Proofs

open Sfsexp Spec

section Calls

variable {g : Setup} {cc cc' : Pcont} {kept : Bool}

/-- Two ends of a call of which the second follows the first. -/
def Followed : Stop → Stop → Prop
  | .ret R, .ret R' => (∃ f, Echoes f R R') ∧ Normal R.cc.toRegs
  | .fault _, .fault _ => True
  | _, _ => False

/-- The heads of the same round of both parsers. -/
def SameRound (l e : Locals) : Prop := (∃ f, Shadows f l e) ∧ NormalHead l

lemma sameRound_step {env : EventEnv} (h : env.Succeeds) (l e : Locals) (hl : SameRound l e) :
    Loop.Lockstep SameRound Followed (cparseHead env.toEnv l) (env.eparseHead e) := by
  obtain ⟨⟨f, hshadows⟩, hnormal⟩ := hl
  have hround := shadowed_round h hshadows hnormal
  have hkeep := normal_cparseHead h hnormal
  cases hrun : cparseHead env.toEnv l with
  | ok l' =>
    rw [hrun] at hround hkeep
    obtain ⟨e', hrun', he'⟩ := hround.of_ok
    rw [hrun']
    exact ⟨⟨_, he'⟩, hkeep⟩
  | error stop =>
    rw [hrun] at hround hkeep
    cases hrun' : env.eparseHead e with
    | ok e' =>
      rw [hrun'] at hround
      exact hround.elim
    | error stop' =>
      rw [hrun'] at hround
      cases stop with
      | fault _ =>
        cases stop' with
        | ret _ => exact hround.elim
        | fault _ => trivial
      | ret R =>
        cases stop' with
        | fault _ => exact hround.elim
        | ret R' => exact ⟨⟨_, hround⟩, Post.of_ret hkeep R rfl⟩

/-- A call on the continuation of the event-only parser follows the one of the other parser. -/
lemma followed_call {k : Call} (h : k.setup.Succeeds)
    (hregs : ShadowRegs kept cc.toRegs cc'.toRegs) (hpos : cc'.lastPos = cc.lastPos)
    (hn : Normal cc.toRegs) {s : Stop}
    (hrun : cparseSexp k.setup (some k.buf) k.len (some cc) k.errno = Result.ofStop (some s)) :
    ∃ s', cparseSexp k.setup (some k.buf) k.len (some cc') k.errno = Result.ofStop (some s') ∧
      Followed s s' := by
  have hstart : SameRound (cc.enter 0) (cc'.enter 0) := ⟨⟨_, hregs.enter hpos⟩, hn.enter 0⟩
  have hboth := Loop.run_lockstep
    (@sameRound_step { toEnv := k.env, cc := cc', errno := k.errno } h) hstart (fuel k.env)
  rw [cparseSexp_eq_run, Call.head, if_neg (by simp [hn.mode])] at hrun
  rw [cparseSexp_eq_run, Call.head, if_pos hregs.mode]
  generalize Loop.run (cparseHead k.env) (fuel k.env) (cc.enter 0) = x,
    Loop.run (EventEnv.eparseHead _) (fuel k.env) (cc'.enter 0) = y at hrun hboth ⊢
  cases hboth with
  | none => cases s <;> cases hrun
  | @some stop stop' hstop =>
    refine ⟨stop', rfl, ?_⟩
    cases stop <;> cases s <;> cases hrun <;> exact hstop

/-- The event-only parser is in the state `r`, at the start of a piece. -/
structure Listens (cc' : Pcont) (r : Reader) : Prop where
  follows : ∃ (kept : Bool) (cc : Pcont) (L : List (List Sexp)),
    ShadowRegs kept cc.toRegs cc'.toRegs ∧ Normal cc.toRegs ∧ Good cc.toRegs L ∧ cc.state ≠ .s3 ∧
      cc.lastPos = none ∧ r = view cc.toRegs L
  lastPos : cc'.lastPos = none
  noTree : cc'.lastSexp = []
  error : cc'.error = .ok

/-- What a call on such a parser does with the piece `u`. -/
inductive Hears (u : List Byte) (r : Reader) : Result → Prop where
  | more (R : Return) (r' : Reader) (hscan : scan r u = ([], .ok r')) (hnext : Listens R.cc r')
      (hcursor : R.cursor = u.length) : Hears u r (.ret R)
  | tree (R : Return) (x : Tree) (p : Nat) (hp : p ≤ u.length)
      (hscan : scan r u = (x :: (scan Reader.start (u.drop p)).1, (scan Reader.start (u.drop p)).2))
      (hlast : p = u.length → ∀ c, u.getLast? = some c → isWhite c = false)
      (hcursor : R.cursor = p) (hpos : R.cc.lastPos = some p) (htree : R.cc.lastSexp = [])
      (herror : R.cc.error = .ok) (hsane : Sane R.cc.toRegs) : Hears u r (.ret R)
  | bad (R : Return) (hscan : scan r u = ([], .error .badForm)) : Hears u r (.ret R)
  | stray (f : Fault) (hscan : scan r u = ([], .error .stray)) : Hears u r (.fault f)
  | overrun (R : Return) (r' : Reader) (hscan : scan r u = ([], .ok r')) (hpair : r'.pair = true)
      (hbehind : u.length < R.cursor) : Hears u r (.ret R)
  | lost (f : Fault) (r' : Reader) (hscan : scan r u = ([], .ok r')) (hpair : r'.pair = true) :
      Hears u r (.fault f)

lemma Listens.sane {r : Reader} (h : Listens cc' r) : Sane cc'.toRegs := by
  obtain ⟨kept, cc, L, hregs, -, hgood, -⟩ := h.follows
  rw [hregs.frame]
  exact hgood.sane

lemma hears {iow : IoWrap} {u : List Byte} {r : Reader} (hg : g.Succeeds)
    (hcc : iow.cc = some cc') (hl : Listens cc' r) (hcnt : iow.cnt = u.length)
    (hbuf : ∃ v, iow.buf = u ++ v) (hnul : nul ∉ u) (errno : ErrCode) :
    Hears u r (iow.parse g errno) := by
  obtain ⟨kept, cc, L, hregs, hn, hgood, h3, hpos, hr⟩ := hl.follows
  have hholds : HoldsPiece { iow with cc := some cc } u 0 r :=
    ⟨hcnt, hbuf, hnul, by simp [hpos], Nat.zero_le _, .inr ⟨cc, L, rfl, hgood, h3, hr⟩⟩
  obtain ⟨tail, s, hcall, hends, -⟩ := parse_ends hg hholds errno
  obtain ⟨s', hcall', hfollowed⟩ := @followed_call cc cc' kept ⟨g, iow.memory, iow.cnt, errno⟩ hg
    hregs (hl.lastPos.trans hpos.symm) hn s hcall
  have hparse : iow.parse g errno = Result.ofStop (some s') := by
    rw [IoWrap.parse, hcc]
    exact hcall'
  have hsane : ∀ R', s' = .ret R' → Sane R'.cc.toRegs := by
    rintro R' rfl
    exact (parse_onward hcc hl.sane hparse).1
  rw [hparse]
  rw [List.drop_zero] at hends
  cases hends with
  | more R L' hgood' hq htree herror herrno hnone hcursor h3' =>
    cases s' with
    | fault _ => exact hfollowed.elim
    | ret R' =>
      obtain ⟨⟨f, hechoes⟩, hnormal⟩ := hfollowed
      have hne : R.cc.error ≠ .badForm := by simp [herror]
      refine .more R' _ hq ⟨⟨_, R.cc, L', hechoes.regs hne, hnormal, hgood', h3', hnone, rfl⟩,
        hechoes.lastPos.trans hnone, hechoes.noTree,
        hechoes.error (mt hechoes.badForm.mp hne)⟩ (hechoes.cursor.trans hcursor)
  | tree R x p hr hp hq hlast =>
    cases s' with
    | fault _ => exact hfollowed.elim
    | ret R' =>
      obtain ⟨⟨f, hechoes⟩, -⟩ := hfollowed
      have hne : R.cc.error ≠ .badForm := by simp [hr.error]
      exact .tree R' x.tree p hp hq hlast (hechoes.cursor.trans hr.cursor)
        (hechoes.lastPos.trans hr.lastPos) hechoes.noTree
        (hechoes.error (mt hechoes.badForm.mp hne)) (hsane R' rfl)
  | bad R hr hq hparen =>
    cases s' with
    | fault _ => exact hfollowed.elim
    | ret R' => exact .bad R' hq
  | stray hq =>
    cases s' with
    | fault f => exact .stray f hq
    | ret _ => exact hfollowed.elim
  | overrun s r' hq hpair hlex hs hbehind =>
    cases s' with
    | fault f => exact .lost f r' hq hpair
    | ret R' =>
      cases s with
      | fault _ => exact hfollowed.elim
      | ret R =>
        obtain ⟨⟨f, hechoes⟩, -⟩ := hfollowed
        refine .overrun R' r' hq hpair ?_
        rw [hechoes.cursor]
        exact hbehind R rfl

lemma Listens.pair {r : Reader} (h : Listens cc' r) : r.pair = false := by
  obtain ⟨kept, cc, L, -, -, -, -, -, rfl⟩ := h.follows
  rfl

end Calls

section Pieces

variable {g : Setup} {iow iow' : IoWrap} {cc : Pcont} {r : Reader} {u : List Byte}
variable {pieces rest : List (List Byte)} {errno : ErrCode} {before : Trail} {R : OneRead}

/-- A call of the parser, and the loop that goes on with the wrapper `iow'`. -/
def parseThen (g : Setup) (iow iow' : IoWrap) (rest : List (List Byte)) (errno : ErrCode)
    (before : Trail) : Option OneRead :=
  match iow.parse g errno with
  | .ret R => readMore g rest iow' R.cc R.errno (before ++ iow.stepped rest.length R)
  | _ => none

lemma readMore_reads (htree : cc.lastSexp = []) (herror : cc.error = .ok) (hne : u ≠ []) :
    readMore g (u :: rest) iow cc errno before =
      parseThen g ({ iow with cc := some cc }.fill u)
        { { iow with cc := some cc }.fill u with cnt := 0 } rest errno before := by
  have hcnt : ({ iow with cc := some cc }.fill u).cnt ≠ 0 := by simpa [IoWrap.fill] using hne
  rw [readMore, if_neg (not_not.mpr htree), if_neg (not_not.mpr herror)]
  exact if_neg hcnt

/-- What the client hears of is not what was delivered: some byte is stepped over that was not
delivered at its place, or some delivered byte is not, and will not be. -/
def Misled (before : Trail) (pieces : List (List Byte)) (R : OneRead) : Prop :=
  (∃ x ∈ R.places, x ∉ before.places ∧ x ∉ placesOf pieces) ∨
    ∃ x ∈ placesOf pieces, LogsOnly (· ≠ x) before.places R.places ∧
      ((R.sx = [] ∧ R.errno = .ioEmpty) ∨ IsPast x R.iow R.pieces)

/-- The call reads all pieces to their ends when no expression ends before the last byte, and else
misleads the client. -/
structure ReadsToEnd (r : Reader) (pieces : List (List Byte)) (before : Trail)
    (o : Option OneRead) : Prop where
  all : OnlyLast r pieces → ∃ R, o = some R ∧ R.sx = [] ∧ R.errno = .ioEmpty ∧
    R.places = before.places ++ placesOf pieces
  misled : ¬ OnlyLast r pieces → ∀ R, o = some R → Misled before pieces R

lemma stepped_places {R : Return} {left p : Nat} (hpos : (iow.cc.bind (·.lastPos)).getD 0 = p) :
    (iow.stepped left R).places = (List.range' p (R.cursor - p)).map (⟨left, ·⟩) := by
  rw [IoWrap.stepped, hpos]

/-- The piece behind an expression that ends in the middle of the stream is passed from where the
expression ended. -/
lemma misled_behind {v : List Byte} (hne : v ≠ []) (htree : cc.lastSexp = [])
    (herror : cc.error = .ok) (hsane : Sane cc.toRegs) {p : Nat} (hpos : cc.lastPos = some p)
    (hp : 0 < p) (hrun : readMore g (v :: rest) iow cc errno before = some R) :
    LogsOnly (· ≠ ⟨rest.length, 0⟩) before.places R.places ∧
      IsPast ⟨rest.length, 0⟩ R.iow R.pieces := by
  rw [readMore_reads htree herror hne, parseThen] at hrun
  split at hrun
  · rename_i R' hparse
    obtain ⟨hsane', hlow, hmark⟩ := parse_onward rfl hsane hparse
    rw [hpos, Option.getD_some] at hlow
    have hoff : OffStart (some R'.cc) := by
      rintro cc' hcc'
      cases hcc'
      refine ⟨hsane', fun h => ?_⟩
      have := hmark 0 h
      omega
    have hrest := readMore_leavesOut (x := ⟨rest.length, 0⟩) hrun rfl rfl rfl hoff
    refine ⟨LogsOnly.trans ⟨_, rfl, ?_⟩ hrest.places, hrest.past⟩
    rintro y hy rfl
    have hy' := (mem_stepped.mp hy).2.1
    have hstart : (({ iow with cc := some cc }.fill v).cc.bind (·.lastPos)).getD 0 = p := by
      simp [IoWrap.fill, hpos]
    rw [hstart] at hy'
    exact absurd hp (Nat.not_lt.mpr hy')
  · cases hrun

/-- An expression ends in the piece `u` before the last byte of the stream. -/
lemma misled_of_tree {R₁ : Return}
    (hne : ∀ v ∈ rest, v ≠ []) {p : Nat} (hp : p ≤ u.length) (hu : u ≠ [])
    (hearly : ¬ (p = u.length ∧ rest = [])) (hcursor : R₁.cursor = p)
    (hpos : R₁.cc.lastPos = some p) (htree : R₁.cc.lastSexp = []) (herror : R₁.cc.error = .ok)
    (hsane : Sane R₁.cc.toRegs)
    (hrun : readMore g rest iow' R₁.cc R₁.errno (before ++ iow.stepped rest.length R₁) = some R) :
    Misled before (u :: rest) R := by
  by_cases hlt : p < u.length
  · -- the byte at `p` is skipped
    have hstep : LogsOnly (· ≠ ⟨rest.length, p⟩) before.places
        (before ++ iow.stepped rest.length R₁).places := by
      refine ⟨_, rfl, ?_⟩
      rintro y hy rfl
      have hy' := (mem_stepped.mp hy).2.2
      rw [hcursor] at hy'
      exact Nat.lt_irrefl _ hy'
    refine .inr ⟨⟨rest.length, p⟩, mem_placesOf_cons.mpr hlt, ?_, ?_⟩
    · refine hstep.trans ((readMore_places hrun).places.mono ?_)
      rintro y hy rfl
      exact Nat.lt_irrefl _ hy
    · cases rest with
      | nil =>
        rw [readMore, if_neg (not_not.mpr htree), if_neg (not_not.mpr herror)] at hrun
        cases hrun
        exact .inl ⟨rfl, rfl⟩
      | cons v rest =>
        rw [readMore_reads htree herror (hne v (by simp)), parseThen] at hrun
        split at hrun
        · refine .inr (.inl (Nat.lt_of_le_of_lt (readMore_places hrun).pieces ?_))
          exact Nat.lt_succ_self _
        · cases hrun
  · obtain rfl : p = u.length := Nat.le_antisymm hp (Nat.not_lt.mp hlt)
    cases rest with
    | nil => exact absurd ⟨rfl, rfl⟩ hearly
    | cons v rest =>
      have hv := hne v (by simp)
      obtain ⟨hlogs, hpast⟩ := misled_behind hv htree herror hsane hpos (List.length_pos_iff.mpr hu)
        hrun
      refine .inr ⟨⟨rest.length, 0⟩, ?_, LogsOnly.trans ⟨_, rfl, ?_⟩ hlogs, .inr hpast⟩
      · rw [placesOf, List.mem_append]
        exact .inr (mem_placesOf_cons.mpr (List.length_pos_iff.mpr hv))
      · rintro y hy rfl
        have hleft := (mem_stepped.mp hy).1
        exact absurd hleft (Nat.ne_of_lt (Nat.lt_succ_self _))

/-- What follows on the rest of the pieces. -/
def Onto (g : Setup) (rest : List (List Byte)) : Prop :=
  ∀ (iow : IoWrap) (cc : Pcont) (r : Reader) (errno : ErrCode) (before : Trail), Listens cc r →
    (scan r rest.flatten).2 ≠ .error .badForm → (∀ x ∈ before.places, rest.length ≤ x.left) →
    ReadsToEnd r rest before (readMore g rest iow cc errno before)

lemma Misled.cons {S : Trail} (hS : S.places = (List.range' 0 u.length).map (⟨rest.length, ·⟩))
    (h : Misled (before ++ S) rest R) : Misled before (u :: rest) R := by
  rcases h with ⟨x, hx, hbefore, hrest⟩ | ⟨x, hx, hlogs, hdone⟩
  · rw [Trail.append_places, List.mem_append, not_or] at hbefore
    refine .inl ⟨x, hx, hbefore.1, ?_⟩
    rw [placesOf, ← hS, List.mem_append]
    exact not_or.mpr ⟨hbefore.2, hrest⟩
  · refine .inr ⟨x, by rw [placesOf]; exact List.mem_append_right _ hx, ?_, hdone⟩
    refine LogsOnly.trans ⟨S.places, rfl, ?_⟩ hlogs
    rintro y hy rfl
    rw [hS, List.mem_map] at hy
    obtain ⟨i, -, rfl⟩ := hy
    exact Nat.lt_irrefl _ (left_of_mem_placesOf hx)

/-- The piece `u`, and the pieces behind it. -/
lemma readsToEnd_cons (hg : g.Succeeds) (honto : Onto g rest) (hne : ∀ v ∈ u :: rest, v ≠ [])
    (hcc : iow.cc = some cc) (hl : Listens cc r) (hcnt : iow.cnt = u.length)
    (hbuf : ∃ v, iow.buf = u ++ v) (hnul : nul ∉ u)
    (hbad : (scan r (u :: rest).flatten).2 ≠ .error .badForm)
    (hbefore : ∀ x ∈ before.places, rest.length < x.left) :
    ReadsToEnd r (u :: rest) before (parseThen g iow iow' rest errno before) := by
  obtain ⟨hu, hrest⟩ := List.forall_mem_cons.mp hne
  have hzero : (iow.cc.bind (·.lastPos)).getD 0 = 0 := by simp [hcc, hl.lastPos]
  rw [List.flatten_cons, scan_append] at hbad
  have hh := hears hg hcc hl hcnt hbuf hnul errno
  rw [parseThen]
  generalize iow.parse g errno = o at hh ⊢
  cases hh with
  | more R r' hscan hnext hcursor =>
    have hstep : (iow.stepped rest.length R).places =
        (List.range' 0 u.length).map (⟨rest.length, ·⟩) := by
      rw [stepped_places hzero, hcursor, Nat.sub_zero]
    rw [hscan, scanOn_silent] at hbad
    have honly : OnlyLast r (u :: rest) ↔ OnlyLast r' rest := by
      rw [OnlyLast, hscan]
      constructor
      · rintro (⟨r'', hr, -, h⟩ | ⟨-, x, hx, -⟩)
        · cases hr
          exact h
        · rw [hscan] at hx
          cases hx
      · exact fun h => .inl ⟨r', rfl, hnext.pair, h⟩
    have htail : ∀ x ∈ (before ++ iow.stepped rest.length R).places, rest.length ≤ x.left := by
      intro x hx
      rcases List.mem_append.mp hx with hx | hx
      · exact Nat.le_of_lt (hbefore x hx)
      · exact Nat.le_of_eq (mem_stepped.mp hx).1.symm
    have hgo := honto iow' R.cc r' R.errno _ hnext hbad htail
    refine ⟨fun h => ?_, fun h R' hR' => ?_⟩
    · obtain ⟨R', hrun, hsx, herrno, hplaces⟩ := hgo.all (honly.mp h)
      refine ⟨R', hrun, hsx, herrno, ?_⟩
      rw [hplaces, Trail.append_places, hstep, List.append_assoc, placesOf]
    · exact (hgo.misled (mt honly.mpr h) R' hR').cons hstep
  | tree R x p hp hscan hlast hcursor hpos htree herror hsane =>
    refine ⟨fun h => ?_, fun h R' hR' => ?_⟩
    · rcases h with ⟨r', hr, -⟩ | ⟨rfl, y, hy, hwhite⟩
      · rw [hscan] at hr
        cases hr
      · have hend : p = u.length := by
          by_contra hne
          have hdrop : u.drop p ≠ [] := by
            rw [Ne, List.drop_eq_nil_iff]
            omega
          rw [hscan] at hy
          have hout : (scan Reader.start (u.drop p)).1 = [] := (List.cons.inj (congrArg Prod.fst hy)).2
          have hstate : (scan Reader.start (u.drop p)).2 = .ok Reader.start := congrArg Prod.snd hy
          obtain ⟨c, hc, hcwhite⟩ := white_of_scan hdrop (Prod.ext hout hstate) ⟨rfl, rfl⟩
          rw [List.getLast?_drop, if_neg (by omega)] at hc
          rw [hwhite c hc] at hcwhite
          cases hcwhite
        dsimp only
        rw [readMore, if_neg (not_not.mpr htree), if_neg (not_not.mpr herror)]
        refine ⟨_, rfl, rfl, rfl, ?_⟩
        rw [noSexp, Trail.append_places, stepped_places hzero, hcursor, hend, Nat.sub_zero, placesOf,
          placesOf, List.append_nil]
    · refine misled_of_tree hrest hp hu ?_ hcursor hpos htree herror hsane hR'
      rintro ⟨hend, rfl⟩
      refine h (.inr ⟨rfl, x, ?_, hlast hend⟩)
      rw [hscan, hend, List.drop_length]
      rfl
  | bad R hscan =>
    rw [hscan, scanOn_error] at hbad
    exact absurd rfl hbad
  | stray f hscan =>
    refine ⟨fun h => ?_, fun _ R' hR' => by cases hR'⟩
    rcases h with ⟨r', hr, -⟩ | ⟨-, y, hy, -⟩
    · rw [hscan] at hr
      cases hr
    · rw [hscan] at hy
      cases hy
  | overrun R r' hscan hpair hbehind =>
    refine ⟨fun h => ?_, fun _ R' hR' => .inl ⟨⟨rest.length, u.length⟩, ?_, ?_, ?_⟩⟩
    · rcases h with ⟨r'', hr, hpair', -⟩ | ⟨-, y, hy, -⟩
      · rw [hscan] at hr
        cases hr
        rw [hpair] at hpair'
        cases hpair'
      · rw [hscan] at hy
        cases hy
    · refine (readMore_places hR').places.mem (List.mem_append_right _ (mem_stepped.mpr ?_))
      rw [hzero]
      exact ⟨rfl, Nat.zero_le _, hbehind⟩
    · exact fun hin => Nat.lt_irrefl _ (hbefore _ hin)
    · exact fun hin => Nat.lt_irrefl _ (mem_placesOf_cons.mp hin)
  | lost f r' hscan hpair =>
    refine ⟨fun h => ?_, fun _ R' hR' => by cases hR'⟩
    rcases h with ⟨r'', hr, hpair', -⟩ | ⟨-, y, hy, -⟩
    · rw [hscan] at hr
      cases hr
      rw [hpair] at hpair'
      cases hpair'
    · rw [hscan] at hy
      cases hy

lemma readsToEnd_run (hg : g.Succeeds) (hpieces : ∀ u ∈ pieces, u ≠ [] ∧ nul ∉ u) :
    Onto g pieces := by
  induction pieces with
  | nil =>
    intro iow cc r errno before hl _ _
    refine ⟨fun _ => ?_, fun h => absurd trivial h⟩
    rw [readMore, if_neg (not_not.mpr hl.noTree), if_neg (not_not.mpr hl.error)]
    exact ⟨_, rfl, rfl, rfl, by simp [noSexp, placesOf]⟩
  | cons u rest ih =>
    obtain ⟨⟨hu, hnul⟩, hrest⟩ := List.forall_mem_cons.mp hpieces
    intro iow cc r errno before hl hbad hbefore
    rw [readMore_reads hl.noTree hl.error hu]
    exact readsToEnd_cons hg (ih hrest) (fun v hv => (hpieces v hv).1) rfl hl rfl ⟨_, rfl⟩ hnul hbad
      hbefore

end Pieces

section Client

variable {gs : Nat → Setup} {iow : IoWrap} {pieces : List (List Byte)} {errno : ErrCode} {n : Nat}
variable {R : OneRead} {rs : Readings}

lemma Misled.client (h : Misled .none pieces R) (hone : readOneSexp (gs n) iow pieces errno = some R)
    (hrun : readThrough gs (n + 1) iow pieces errno = some rs) : rs.places ≠ placesOf pieces := by
  rcases h with ⟨x, hx, -, hnot⟩ | ⟨x, hx, hlogs, hdone⟩
  · exact fun heq => hnot (heq ▸ mem_of_call hrun hone hx)
  · have hhere : x ∉ R.places := hlogs.not_mem (by simp) (by simp)
    obtain ⟨m, R', hm, hone', hrest⟩ := readThrough_call hrun
    cases hm
    rw [hone] at hone'
    cases hone'
    intro heq
    rw [← heq] at hx
    rcases hrest with ⟨-, -, rfl⟩ | ⟨hnot, rs', hrs', rfl⟩
    · exact hhere hx
    · have hrest : x ∉ rs'.places := readThrough_leavesOut hrs' (hdone.resolve_left hnot)
      rw [OneRead.before, Trail.append_places, List.mem_append] at hx
      exact hx.elim hhere hrest

lemma listens_new (g : Setup) (hs : Option Handlers) :
    Listens { Pcont.new g with mode := .eventsOnly, eventHandlers := hs } Reader.start :=
  ⟨⟨false, { Pcont.new g with eventHandlers := hs }, [], shadowRegs_new g hs,
    (shadowConts_new g hs).normal, good_listening g hs, by simp [Pcont.new], rfl,
    (view_listening g hs).symm⟩, rfl, rfl, rfl⟩

/-- The first call on a wrapper for an event-only parser. -/
lemma readOneSexp_events {g : Setup} (hg : g.Succeeds) {cc : Pcont} (hl : Listens cc Reader.start)
    (hcc : iow.cc = some cc) (hcnt : iow.cnt = 0) (hpieces : ∀ u ∈ pieces, u ≠ [] ∧ nul ∉ u)
    (hbad : (scan Reader.start pieces.flatten).2 ≠ .error .badForm) :
    ReadsToEnd Reader.start pieces .none (readOneSexp g iow pieces errno) := by
  rw [readOneSexp, if_neg (by simp [hcc, hl.lastPos]), readFresh, if_pos hcnt]
  cases pieces with
  | nil => exact ⟨fun _ => ⟨_, rfl, rfl, rfl, rfl⟩, fun h => absurd trivial h⟩
  | cons u rest =>
    obtain ⟨⟨hu, hnul⟩, hrest⟩ := List.forall_mem_cons.mp hpieces
    have hread : (iow.fill ((u :: rest).headD [])).cnt ≠ 0 := by simpa [IoWrap.fill] using hu
    dsimp only
    rw [if_neg hread]
    exact readsToEnd_cons hg (readsToEnd_run hg hrest) (fun v hv => (hpieces v hv).1) hcc hl rfl
      ⟨_, rfl⟩ hnul hbad (by simp)

/-- In mode `PARSER_EVENTS_ONLY` every byte is stepped over once and in order exactly when the stream
holds no complete expression, or one that its last byte ends. -/
theorem events_fed_once (hgs : ∀ i, (gs i).Succeeds) (g : Setup) (hs : Option Handlers)
    (hcc : iow.cc = some { Pcont.new g with mode := .eventsOnly, eventHandlers := hs })
    (hcnt : iow.cnt = 0) (hpieces : ∀ u ∈ pieces, u ≠ [] ∧ nul ∉ u)
    (hbad : (scan Reader.start pieces.flatten).2 ≠ .error .badForm) :
    FedOnce gs iow pieces errno ↔ OnlyLast Reader.start pieces := by
  have hcall := fun n => @readOneSexp_events iow pieces errno (gs n) (hgs n) _ (listens_new g hs) hcc
    hcnt hpieces hbad
  constructor
  · rintro ⟨n, rs, hrun, hplaces⟩
    by_contra honly
    obtain ⟨m, R, rfl, hone, -⟩ := readThrough_call hrun
    exact ((hcall m).misled honly R hone).client hone hrun hplaces
  · intro honly
    obtain ⟨R, hone, hsx, herrno, hplaces⟩ := (hcall 0).all honly
    refine ⟨1, R.last, ?_, by rw [OneRead.last, hplaces]; rfl⟩
    rw [readThrough, hone]
    exact if_pos ⟨hsx, herrno⟩

end Client

end Sfsexp.Proofs
