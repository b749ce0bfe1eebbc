import Sfsexp.Proofs.Chunks
import Sfsexp.Spec.Stream

/-!
# Reading expressions from a descriptor

A client of `read_one_sexp` gets the expressions of its stream, and every byte is read once, exactly
when each piece that `read` delivers completes an expression. A piece that completes none ends in
`SEXP_ERR_INCOMPLETE`, and `cnt` keeps its length, so that the next call reads the piece again.
-/

namespace Sfsexp.Proofs

open Sfsexp Spec

/-- The parser of the wrapper is in the state `r`. -/
def ParserIn (iow : IoWrap) (r : Reader) : Prop :=
  (iow.cc = none ∧ r = Reader.start) ∨
    ∃ cc L, iow.cc = some cc ∧ Good cc.toRegs L ∧ cc.state ≠ .s3 ∧ r = view cc.toRegs L

/-- The wrapper holds the piece `u`, of which the parser in the state `r` has read `p` bytes. -/
structure HoldsPiece (iow : IoWrap) (u : List Byte) (p : Nat) (r : Reader) : Prop where
  cnt : iow.cnt = u.length
  buf : ∃ v, iow.buf = u ++ v
  noNul : nul ∉ u
  pos : (iow.cc.bind (·.lastPos)).getD 0 = p
  le : p ≤ u.length
  parser : ParserIn iow r

section Calls

variable {g : Setup} {iow : IoWrap} {u : List Byte} {p : Nat} {r : Reader}

lemma cntBytes_ne_nil (n : Nat) : cntBytes n ≠ [] := by
  simp [cntBytes]

/-- A call does not step back. -/
lemma cursor_low_of_run {k : Call} {cc : Pcont} {l : Locals} {R : Return} {n : Nat}
    (hsane : Sane l.toRegs) (hrun : Loop.run (k.head cc) n l = some (.ret R)) : l.t ≤ R.cursor := by
  obtain ⟨l', hreach, hexit⟩ := Loop.exit_of_halts ⟨n, hrun⟩
  clear hrun
  induction hreach using Relation.ReflTransGen.head_induction_on with
  | refl =>
    have hm := @moves_callHead k cc l' hsane
    rw [hexit] at hm
    exact hm.low
  | @head l₁ l₂ hstep _ ih =>
    have hm := @moves_callHead k cc l₁ hsane
    have hstep : k.head cc l₁ = .ok l₂ := hstep
    rw [hstep] at hm
    exact Nat.le_trans hm.1.low (ih hm.1.sane)

/-- A call of the parser reads what is left of the piece. -/
lemma parse_ends (hg : g.Succeeds) (hi : HoldsPiece iow u p r) (errno : ErrCode) :
    ∃ tail s, iow.parse g errno = Result.ofStop (some s) ∧ Ends u tail (scan r (u.drop p)) s ∧
      ∀ R, s = .ret R → p ≤ R.cursor := by
  obtain ⟨hcnt, ⟨v, hbuf⟩, hnul, hpos, hle, hparser⟩ := hi
  obtain ⟨tail, htail, hmem⟩ : ∃ tail, tail ≠ [] ∧ iow.memory = u ++ tail :=
    ⟨v ++ (padding iow.buf.length ++ cntBytes iow.cnt), by simp [cntBytes_ne_nil],
      by rw [IoWrap.memory, hbuf, List.append_assoc]⟩
  have hb : Holding (Call.env ⟨g, iow.memory, iow.cnt, errno⟩) u tail := by
    refine ⟨hg, ?_, Nat.le_of_eq hcnt.symm, .inl hcnt, htail, hnul⟩
    simp [Call.env, hmem]
  have hstart : ∀ (cc : Pcont) (L : List (List Sexp)) (n : Nat), Good cc.toRegs L →
      cc.state ≠ .s3 → cc.lastPos.getD 0 = p →
      ∃ s, Loop.run (cparseHead (Call.env ⟨g, iow.memory, iow.cnt, errno⟩))
          (fuel (Call.env ⟨g, iow.memory, iow.cnt, errno⟩)) (cc.enter n) = some s ∧
        Ends u tail (scan (view cc.toRegs L) (u.drop p)) s ∧
        ∀ R, s = .ret R → p ≤ R.cursor := by
    rintro cc L n hgood h3 rfl
    obtain ⟨s, hrun, hends⟩ := @run_ends_reading ⟨g, iow.memory, iow.cnt, errno⟩ cc u _ L n hb hgood
      h3 hle
    refine ⟨s, hrun, hends, ?_⟩
    rintro R rfl
    have hlow := @cursor_low_of_run ⟨g, iow.memory, iow.cnt, errno⟩ cc (cc.enter n) R
      (fuel (Call.env ⟨g, iow.memory, iow.cnt, errno⟩)) hgood.sane
    rw [Call.head, if_neg (by simp [hgood.mode])] at hlow
    exact hlow hrun
  rcases hparser with ⟨hcc, rfl⟩ | ⟨cc, L, hcc, hgood, h3, rfl⟩
  · rw [hcc] at hpos
    obtain rfl : 0 = p := hpos
    obtain ⟨s, hrun, hends, hlow⟩ := hstart (Pcont.new g) [] 3 (good_new g) (by simp [Pcont.new]) rfl
    rw [view_new] at hends
    refine ⟨_, s, ?_, hends, hlow⟩
    rw [IoWrap.parse, hcc]
    simp only [cparseSexp, initContinuation_of_succeeds hg, runParser]
    exact congrArg Result.ofStop hrun
  · rw [hcc] at hpos
    obtain ⟨s, hrun, hends, hlow⟩ := hstart cc L 0 hgood h3 hpos
    refine ⟨_, s, ?_, hends, hlow⟩
    have hcall := cparseSexp_eq_run ⟨g, iow.memory, iow.cnt, errno⟩ cc
    rw [Call.head, if_neg (by simp [hgood.mode]), hrun] at hcall
    rw [IoWrap.parse, hcc]
    exact hcall

/-- A call that reads on to the first expression, or to the end of the piece. -/
inductive ReadsOn (iow : IoWrap) (u : List Byte) (p : Nat) (r : Reader) : Result → Prop where
  | tree (R : Return) (x : Sexp) (p' : Nat) (hr : TreeReturn x p' R) (hlow : p ≤ p')
      (hhigh : p' ≤ u.length)
      (hscan : scan r (u.drop p) =
        (x.tree :: (scan Reader.start (u.drop p')).1, (scan Reader.start (u.drop p')).2)) :
      ReadsOn iow u p r (.ret R)
  | more (R : Return) (L : List (List Sexp)) (hgood : Good R.cc.toRegs L) (h3 : R.cc.state ≠ .s3)
      (hscan : scan r (u.drop p) = ([], .ok (view R.cc.toRegs L))) (htree : R.cc.lastSexp = [])
      (herror : R.cc.error = .incomplete) (hpos : R.cc.lastPos = none)
      (hcursor : R.cursor = u.length) : ReadsOn iow u p r (.ret R)

lemma parses (hg : g.Succeeds) (hi : HoldsPiece iow u p r) (errno : ErrCode)
    (hread : (scan r (u.drop p)).1 = [] → ∃ r', (scan r (u.drop p)).2 = .ok r' ∧ r'.pair = false) :
    ReadsOn iow u p r (iow.parse g errno) := by
  obtain ⟨tail, s, hcall, hends, hlow⟩ := parse_ends hg hi errno
  rw [hcall]
  generalize hq : scan r (u.drop p) = q at hends hread
  cases hends with
  | more R L hgood hq' htree herror herrno hpos hcursor h3 =>
    exact .more R L hgood h3 (hq.trans hq') htree herror hpos hcursor
  | tree R x p' hr hp' hq' =>
    have hle := hlow R rfl
    rw [hr.cursor] at hle
    exact .tree R x p' hr hle hp' (hq.trans hq')
  | bad R hr hq' =>
    rw [hq'] at hread
    obtain ⟨r', hr', -⟩ := hread rfl
    cases hr'
  | stray hq' =>
    rw [hq'] at hread
    obtain ⟨r', hr', -⟩ := hread rfl
    cases hr'
  | overrun s r₁ hq' hpair₁ hlex hs =>
    rw [hq'] at hread
    obtain ⟨r', hr', hpair⟩ := hread rfl
    cases hr'
    rw [hpair] at hpair₁
    cases hpair₁

/-- What a call steps over, and what it leaves of the piece. -/
lemma stepped_append (hi : HoldsPiece iow u p r) {R : Return} (hlow : p ≤ R.cursor)
    (hhigh : R.cursor ≤ u.length) (left : Nat) :
    iow.stepped left R ++ .rest left u R.cursor = .rest left u p := by
  obtain ⟨v, hbuf⟩ := hi.buf
  have hrest : u.drop R.cursor = (u.drop p).drop (R.cursor - p) := by
    rw [List.drop_drop, Nat.add_sub_cancel' hlow]
  have hsplit : u.length - p = (R.cursor - p) + (u.length - R.cursor) := by omega
  have hnext : R.cursor = p + (R.cursor - p) := by omega
  refine congrArg₂ Trail.mk ?_ ?_
  · dsimp only [IoWrap.stepped, Trail.rest]
    rw [hi.pos, hbuf, List.take_append_of_le_length hhigh, List.drop_take, hrest,
      List.take_append_drop]
  · dsimp only [IoWrap.stepped, Trail.rest]
    rw [hi.pos, ← List.map_append, hsplit, ← List.range'_append_1, ← hnext]

/-- The wrapper is about to read a piece for the parser in the state `r`. -/
structure Fresh (iow : IoWrap) (r : Reader) : Prop where
  cnt : iow.cnt = 0
  pos : iow.cc.bind (·.lastPos) = none
  parser : ParserIn iow r

/-- The wrapper between two calls of the client, when the parser in the state `r` has the bytes `s`
of the last piece before it, and `left` pieces are left to read: there are some bytes, or the next
call reads. -/
def Waiting (left : Nat) (iow : IoWrap) (r : Reader) (s : Trail) : Prop :=
  (∃ u p, HoldsPiece iow u p r ∧ (iow.cc.bind (·.lastPos)).isSome ∧ s = .rest left u p) ∨
    (Fresh iow r ∧ s = .none)

/-- The call returns the first tree of `q`. It steps over the first of the bytes `s`, and the wrapper
waits with the others. -/
def HandsOut (o : Option OneRead) (q : Outcome) (s : Trail) (pieces : List (List Byte)) : Prop :=
  ∃ R x s', o = some R ∧ R.sx = [x] ∧ R.pieces = pieces ∧ R.toTrail ++ s' = s ∧
    q = (x.tree :: (scan Reader.start s'.fed).1, (scan Reader.start s'.fed).2) ∧
    Waiting pieces.length R.iow Reader.start s'

/-- The wrapper keeps the piece `u`: the next call passes it to the parser before it reads. -/
structure KeepsPiece (iow : IoWrap) (u : List Byte) : Prop where
  cnt : iow.cnt = u.length
  buf : u <+: iow.buf
  next (g : Setup) (pieces : List (List Byte)) (errno : ErrCode) :
    readOneSexp g iow pieces errno = parseFresh g iow pieces errno .none

lemma HoldsPiece.keeps {cc : Pcont} (hi : HoldsPiece iow u p r) (hne : u ≠ [])
    (hpos : cc.lastPos = none) : KeepsPiece { iow with cc := some cc } u := by
  obtain ⟨v, hbuf⟩ := hi.buf
  have hcnt : iow.cnt ≠ 0 := by
    rw [hi.cnt]
    exact mt List.length_eq_zero_iff.mp hne
  refine ⟨hi.cnt, ⟨v, hbuf.symm⟩, fun g pieces errno => ?_⟩
  rw [readOneSexp, if_neg (by simp [hpos]), readFresh, if_neg hcnt]

/-- The call finds no more bytes. -/
def RunsDry (o : Option OneRead) (s : Trail) : Prop := ∃ iow, o = some (noSexp iow [] .ioEmpty s)

/-- The call returns `NULL` at the end of the piece `u`, and keeps it. -/
def Stalls (o : Option OneRead) (u : List Byte) (s : Trail) (pieces : List (List Byte)) : Prop :=
  ∃ iow r, o = some (noSexp iow pieces .incomplete s) ∧ KeepsPiece iow u ∧ HoldsPiece iow u 0 r

/-- Behind an expression the parser starts anew. -/
lemma HoldsPiece.taken (hi : HoldsPiece iow u p r) {R : Return} {x : Sexp} {p' : Nat}
    (hr : TreeReturn x p' R) (hhigh : p' ≤ u.length) :
    HoldsPiece { iow with cc := some { R.cc with lastSexp := [] } } u p' Reader.start := by
  refine ⟨hi.cnt, hi.buf, hi.noNul, by simp [hr.lastPos], hhigh, .inr ⟨_, [], rfl, ?_, ?_, ?_⟩⟩
  · exact hr.idle.good
  · simp [hr.idle.state]
  · exact hr.idle.start.symm

lemma returns_takeLast (hi : HoldsPiece iow u p r) {R : Return} {x : Sexp} {p' : Nat}
    (hr : TreeReturn x p' R) (hlow : p ≤ p') (hhigh : p' ≤ u.length)
    (hscan : scan r (u.drop p) =
      (x.tree :: (scan Reader.start (u.drop p')).1, (scan Reader.start (u.drop p')).2))
    (pieces : List (List Byte)) (errno : ErrCode) (before : Trail) :
    HandsOut (some (takeLast iow R.cc pieces errno (before ++ iow.stepped pieces.length R)))
      (scan r (u.drop p)) (before ++ .rest pieces.length u p) pieces := by
  have hsteps := @stepped_append iow u p r hi R (by rwa [hr.cursor]) (by rwa [hr.cursor])
    pieces.length
  rw [hr.cursor] at hsteps
  refine ⟨_, x, .rest pieces.length u p', rfl, hr.tree, rfl, ?_, hscan,
    .inl ⟨u, p', hi.taken hr hhigh, ?_, rfl⟩⟩
  · rw [takeLast, Trail.append_assoc, hsteps]
  · simp [takeLast, hr.lastPos]

/-- The call of the parser behind a read, on a piece that completes an expression. -/
lemma parseFresh_returns (hg : g.Succeeds) (hi : HoldsPiece iow u 0 r) (hsome : (scan r u).1 ≠ [])
    (pieces : List (List Byte)) (errno : ErrCode) (before : Trail) :
    HandsOut (parseFresh g iow pieces errno before) (scan r u)
      (before ++ .rest pieces.length u 0) pieces := by
  have hp := parses hg hi errno (by
    rw [List.drop_zero]
    exact fun hnone => absurd hnone hsome)
  rw [parseFresh]
  generalize iow.parse g errno = o at hp ⊢
  cases hp with
  | tree R x p' hr hlow hhigh hscan =>
    have hret := returns_takeLast hi hr hlow hhigh hscan pieces R.errno before
    rw [List.drop_zero] at hret
    dsimp only
    rw [readMore.eq_def, if_pos (by simp [hr.tree])]
    exact hret
  | more R L hgood h3 hscan htree herror hpos hcursor =>
    rw [List.drop_zero] at hscan
    rw [hscan] at hsome
    exact absurd rfl hsome

/-- And on one that completes none. -/
lemma parseFresh_stalls (hg : g.Succeeds) (hi : HoldsPiece iow u 0 r) (hne : u ≠ []) {r' : Reader}
    (hscan : scan r u = ([], .ok r')) (hpair : r'.pair = false) (pieces : List (List Byte))
    (errno : ErrCode) (before : Trail) :
    Stalls (parseFresh g iow pieces errno before) u (before ++ .rest pieces.length u 0) pieces := by
  have hp := parses hg hi errno (by
    rw [List.drop_zero, hscan]
    exact fun _ => ⟨r', rfl, hpair⟩)
  rw [parseFresh]
  generalize iow.parse g errno = o at hp ⊢
  cases hp with
  | tree R x p' hr hlow hhigh hscan' =>
    rw [List.drop_zero, hscan] at hscan'
    cases hscan'
  | more R L hgood h3 hscan' htree herror hpos hcursor =>
    have hsteps := @stepped_append iow u 0 r hi R (Nat.zero_le _) (Nat.le_of_eq hcursor)
      pieces.length
    rw [hcursor, Trail.rest_end, Trail.append_none] at hsteps
    dsimp only
    rw [readMore.eq_def, if_neg (by simp [htree]), if_pos (by simp [herror]), hsteps, herror]
    exact ⟨_, view R.cc.toRegs L, rfl, hi.keeps hne hpos, hi.cnt, hi.buf, hi.noNul, by simp [hpos],
      Nat.zero_le _, .inr ⟨R.cc, L, rfl, hgood, h3, rfl⟩⟩

lemma Fresh.fill (hi : Fresh iow r) (hnul : nul ∉ u) : HoldsPiece (iow.fill u) u 0 r :=
  ⟨rfl, ⟨_, rfl⟩, hnul, by simp [IoWrap.fill, hi.pos], Nat.zero_le _, hi.parser⟩

/-- The part of a call that reads, at the end of the stream. -/
lemma readFresh_nil (hi : Fresh iow r) (errno : ErrCode) (before : Trail) :
    RunsDry (readFresh g iow [] errno before) before := by
  rw [readFresh, if_pos hi.cnt]
  exact ⟨_, rfl⟩

lemma readFresh_cons (hi : Fresh iow r) (hne : u ≠ []) (rest : List (List Byte)) (errno : ErrCode)
    (before : Trail) :
    readFresh g iow (u :: rest) errno before = parseFresh g (iow.fill u) rest errno before := by
  have hcnt : (iow.fill ((u :: rest).headD [])).cnt ≠ 0 := by simpa [IoWrap.fill] using hne
  rw [readFresh, if_pos hi.cnt]
  exact if_neg hcnt

/-- A call hands out what is left of the piece first. -/
lemma readOneSexp_left {s : Trail} {pieces : List (List Byte)} (hg : g.Succeeds)
    (hi : Waiting pieces.length iow r s) (hsome : (scan r s.fed).1 ≠ []) (errno : ErrCode) :
    HandsOut (readOneSexp g iow pieces errno) (scan r s.fed) s pieces := by
  rcases hi with ⟨u, p, hholds, hpos, rfl⟩ | ⟨-, rfl⟩
  · have hp := parses hg hholds errno fun hnone => absurd hnone hsome
    rw [readOneSexp, if_pos hpos]
    generalize iow.parse g errno = o at hp ⊢
    cases hp with
    | tree R x p' hr hlow hhigh hscan =>
      have hret := returns_takeLast hholds hr hlow hhigh hscan pieces R.errno .none
      dsimp only
      rw [if_pos (by simp [hr.tree])]
      exact hret
    | more R L hgood h3 hscan htree herror hnone hcursor =>
      rw [Trail.rest_fed, hscan] at hsome
      exact absurd rfl hsome
  · exact absurd rfl hsome

/-- When no expression ends in what is left, the call reads. -/
lemma readOneSexp_reads {s : Trail} {pieces : List (List Byte)} (hg : g.Succeeds)
    (hi : Waiting pieces.length iow r s) {r' : Reader} (hscan : scan r s.fed = ([], .ok r'))
    (hpair : r'.pair = false) (errno : ErrCode) :
    ∃ iow' errno', readOneSexp g iow pieces errno = readFresh g iow' pieces errno' s ∧
      Fresh iow' r' := by
  rcases hi with ⟨u, p, hholds, hpos, rfl⟩ | ⟨hfresh, rfl⟩
  · rw [Trail.rest_fed] at hscan
    have hp := parses hg hholds errno (by rw [hscan]; exact fun _ => ⟨r', rfl, hpair⟩)
    rw [readOneSexp, if_pos hpos]
    generalize iow.parse g errno = o at hp ⊢
    cases hp with
    | tree R x p' hr hlow hhigh hscan' =>
      rw [hscan] at hscan'
      cases hscan'
    | more R L hgood h3 hscan' htree herror hnone hcursor =>
      have hsteps := stepped_append hholds (R := R) (by rw [hcursor]; exact hholds.le)
        (Nat.le_of_eq hcursor) pieces.length
      rw [hcursor, Trail.rest_end, Trail.append_none] at hsteps
      rw [hscan] at hscan'
      obtain rfl : r' = view R.cc.toRegs L := by
        cases hscan'
        rfl
      dsimp only
      rw [if_neg (by simp [htree]), hsteps]
      exact ⟨_, _, rfl, rfl, hnone, .inr ⟨_, L, rfl, hgood, h3, rfl⟩⟩
  · obtain rfl : r = r' := by
      cases hscan
      rfl
    rw [readOneSexp, if_neg (by simp [hfresh.pos])]
    exact ⟨iow, errno, rfl, hfresh⟩

end Calls

/-- Every piece completes an expression. -/
def Productive : Reader → List (List Byte) → Prop
  | _, [] => True
  | r, u :: rest => (scan r u).1 ≠ [] ∧ ∀ r', (scan r u).2 = .ok r' → Productive r' rest

/-- The client has the trees of `q` and of the pieces behind it, and has read the bytes `s` and
these pieces once. -/
structure Got (rs : Readings) (q : Outcome) (s : Trail) (pieces : List (List Byte)) : Prop where
  trees : rs.trees.flatMap forest = (scanOn q pieces.flatten).1
  steps : rs.toTrail = s ++ .all pieces

/-- The client is stopped by the first of the pieces that completes no expression. -/
structure Stopped (rs : Readings) (q : Outcome) (s : Trail) (r : Reader) (done : List (List Byte))
    (u : List Byte) : Prop where
  errno : rs.errno = .incomplete
  productive : Productive r done
  silent : (scanOn q (done ++ [u]).flatten).1 = (scanOn q done.flatten).1
  keeps : KeepsPiece rs.iow u
  trees : rs.trees.flatMap forest = (scanOn q (done ++ [u]).flatten).1
  fed : rs.fed = s.fed ++ (done ++ [u]).flatten

/-- The client has got the trees of `q`, and goes on with the pieces when the parser is in the state
`r`. It gets all there is if each piece completes an expression, and else what ends in front of the
first piece that does not. -/
def ReadsAll (o : Option Readings) (q : Outcome) (s : Trail) (r : Reader)
    (pieces : List (List Byte)) : Prop :=
  ∃ rs, o = some rs ∧ (Productive r pieces → rs.errno = .ioEmpty ∧ Got rs q s pieces) ∧
    (¬ Productive r pieces →
      ∃ done u rest, pieces = done ++ u :: rest ∧ Stopped rs q s r done u)

section Client

variable {gs : Nat → Setup} {iow : IoWrap} {r : Reader} {u : List Byte} {s : Trail}
variable {pieces rest : List (List Byte)} {n : Nat} {errno : ErrCode}

/-- The client gets one more tree. -/
lemma Got.cons {rs : Readings} {R : OneRead} {x : Sexp} {q : Outcome} {s' : Trail}
    (h : Got rs (scan Reader.start s'.fed) s' pieces) (hsx : R.sx = [x])
    (hsteps : R.toTrail ++ s' = s)
    (hq : q = (x.tree :: (scan Reader.start s'.fed).1, (scan Reader.start s'.fed).2)) :
    Got (R.before rs) q s pieces := by
  refine ⟨?_, ?_⟩
  · rw [OneRead.before, hq, scanOn_cons, List.flatMap_cons, h.trees, hsx]
    rfl
  · rw [OneRead.before, ← hsteps, h.steps, Trail.append_assoc]

lemma Stopped.cons {rs : Readings} {R : OneRead} {x : Sexp} {q : Outcome} {s' : Trail}
    {done : List (List Byte)} {r' : Reader}
    (h : Stopped rs (scan Reader.start s'.fed) s' r' done u) (hsx : R.sx = [x])
    (hsteps : R.toTrail ++ s' = s)
    (hq : q = (x.tree :: (scan Reader.start s'.fed).1, (scan Reader.start s'.fed).2)) :
    Stopped (R.before rs) q s r' done u := by
  refine ⟨h.errno, h.productive, ?_, h.keeps, ?_, ?_⟩
  · rw [hq, scanOn_cons, scanOn_cons]
    exact congrArg (x.tree :: ·) h.silent
  · rw [OneRead.before, hq, scanOn_cons, List.flatMap_cons, h.trees, hsx]
    rfl
  · rw [OneRead.before, ← hsteps, Trail.append_fed, Trail.append_fed, h.fed, List.append_assoc]

/-- The client goes on after it got an expression. -/
lemma readAll_returns {q : Outcome} {r' : Reader}
    (h : HandsOut (readOneSexp (gs n) iow pieces errno) q s rest)
    (hrec : ∀ (iow' : IoWrap) (s' : Trail) (errno' : ErrCode),
      Waiting rest.length iow' Reader.start s' →
      (∃ x, q = (x :: (scan Reader.start s'.fed).1, (scan Reader.start s'.fed).2)) →
      ReadsAll (readAll gs n iow' rest errno') (scan Reader.start s'.fed) s' r' rest) :
    ReadsAll (readAll gs (n + 1) iow pieces errno) q s r' rest := by
  obtain ⟨R, x, s', hrun, hsx, hpieces, hsteps, hq, hwait⟩ := h
  obtain ⟨rs, hrs, hall, hshort⟩ := hrec R.iow s' R.errno hwait ⟨_, hq⟩
  rw [readAll, hrun]
  dsimp only
  rw [if_neg (by simp [hsx]), hpieces, hrs]
  refine ⟨_, rfl, fun hprod => ?_, fun hnot => ?_⟩
  · obtain ⟨herrno, hgot⟩ := hall hprod
    exact ⟨herrno, hgot.cons hsx hsteps hq⟩
  · obtain ⟨done, u, rest', hsplit, hstop⟩ := hshort hnot
    exact ⟨done, u, rest', hsplit, hstop.cons hsx hsteps hq⟩

lemma productive_cons {r' : Reader} (hsome : (scan r u).1 ≠ []) (hread : (scan r u).2 = .ok r') :
    Productive r (u :: rest) ↔ Productive r' rest := by
  rw [Productive, hread]
  refine ⟨fun h => h.2 r' rfl, fun h => ⟨hsome, ?_⟩⟩
  rintro r'' hr''
  cases hr''
  exact h

lemma Got.flatten {rs : Readings} {q : Outcome}
    (h : Got rs (scanOn q u) (s ++ .rest rest.length u 0) rest) : Got rs q s (u :: rest) := by
  refine ⟨?_, ?_⟩
  · rw [h.trees, scanOn_scanOn, List.flatten_cons]
  · rw [h.steps, Trail.append_assoc, Trail.all_cons]

/-- A piece that completes an expression. -/
lemma ReadsAll.cons {o : Option Readings} {q : Outcome} {r' : Reader}
    (h : ReadsAll o (scanOn q u) (s ++ .rest rest.length u 0) r' rest) (hsome : (scan r u).1 ≠ [])
    (hread : (scan r u).2 = .ok r') : ReadsAll o q s r (u :: rest) := by
  obtain ⟨rs, hrs, hall, hshort⟩ := h
  rw [ReadsAll, productive_cons hsome hread]
  refine ⟨rs, hrs, fun hprod => ?_, fun hnot => ?_⟩
  · obtain ⟨herrno, hgot⟩ := hall hprod
    exact ⟨herrno, hgot.flatten⟩
  · obtain ⟨done, u', rest', hsplit, hstop⟩ := hshort hnot
    refine ⟨u :: done, u', rest', by rw [hsplit, List.cons_append], hstop.errno,
      (productive_cons hsome hread).mpr hstop.productive, ?_, hstop.keeps, ?_, ?_⟩
    · rw [List.cons_append, List.flatten_cons, List.flatten_cons, ← scanOn_scanOn, ← scanOn_scanOn]
      exact hstop.silent
    · rw [List.cons_append, List.flatten_cons, ← scanOn_scanOn]
      exact hstop.trees
    · rw [hstop.fed, Trail.append_fed, Trail.rest_fed, List.drop_zero, List.cons_append,
        List.flatten_cons, List.append_assoc]

/-- A piece that completes none. -/
lemma readAll_stalls
    (h : Stalls (readOneSexp (gs n) iow pieces errno) u (s ++ .rest rest.length u 0) rest)
    (hnone : (scan r u).1 = []) :
    ReadsAll (readAll gs (n + 1) iow pieces errno) ([], .ok r) s r (u :: rest) := by
  obtain ⟨iow', r', hrun, hkeeps, -⟩ := h
  rw [readAll, hrun]
  refine ⟨_, rfl, fun hprod => absurd hnone hprod.1, fun _ => ⟨[], u, rest, rfl, rfl, trivial, ?_,
    hkeeps, ?_, ?_⟩⟩
  · simp [hnone]
  · simp [hnone, OneRead.last]
  · simp [noSexp, OneRead.last]

/-- What is left to read behind the first tree. -/
lemma scan_after_tree {q : Outcome} {x : Tree} {w' tail : List Byte} {r' : Reader}
    (hq : q = (x :: (scan Reader.start w').1, (scan Reader.start w').2)) (hr' : q.2 = .ok r')
    (hclean : r'.pair = false ∧ Clean r' rest) (hend : ∃ e, (scanOn q tail).2 = .ok e)
    (hn : (scanOn q tail).1.length < n + 1) :
    (∃ e, (scan Reader.start (w' ++ tail)).2 = .ok e) ∧ Clean Reader.start (w' :: rest) ∧
      (scan Reader.start w').2 = .ok r' ∧ (scan Reader.start (w' ++ tail)).1.length < n := by
  have hrest : (scan Reader.start w').2 = .ok r' := by
    rw [hq] at hr'
    exact hr'
  rw [hq, scanOn_cons] at hend hn
  rw [scan_append, Clean, hrest]
  exact ⟨hend, hclean, rfl, Nat.lt_of_succ_lt_succ hn⟩

/-- The run of the client. -/
lemma readAll_spec (hgs : ∀ i, (gs i).Succeeds) (hi : Waiting pieces.length iow r s)
    (hpieces : ∀ u ∈ pieces, u ≠ [] ∧ nul ∉ u)
    (hend : ∃ e, (scan r (s.fed ++ pieces.flatten)).2 = .ok e) (hclean : Clean r (s.fed :: pieces))
    {r' : Reader} (hr' : (scan r s.fed).2 = .ok r')
    (hn : (scan r (s.fed ++ pieces.flatten)).1.length < n) :
    ReadsAll (readAll gs n iow pieces errno) (scan r s.fed) s r' pieces := by
  induction n generalizing iow r s pieces errno r' with
  | zero => omega
  | succ n ih =>
    have hpair : r'.pair = false ∧ Clean r' pieces := by
      rw [Clean, hr'] at hclean
      exact hclean
    by_cases hsome : (scan r s.fed).1 = []
    · have hscan : scan r s.fed = ([], .ok r') := Prod.ext hsome hr'
      rw [scan_append, hscan, scanOn_silent] at hend hn
      rw [hscan]
      obtain ⟨iow', errno', hrun, hfresh⟩ := readOneSexp_reads (hgs n) hi hscan hpair.1 errno
      cases pieces with
      | nil =>
        obtain ⟨iow'', hrun'⟩ := readFresh_nil (g := gs n) hfresh errno' s
        rw [readAll, hrun, hrun']
        exact ⟨_, rfl, fun _ => ⟨rfl, rfl, by simp [OneRead.last, noSexp]⟩,
          fun hnot => absurd trivial hnot⟩
      | cons u rest =>
        obtain ⟨⟨hne, hnul⟩, hrest⟩ := List.forall_mem_cons.mp hpieces
        rw [List.flatten_cons, scan_append] at hend hn
        obtain ⟨r'', hr'', hpair'⟩ : ∃ r'', (scan r' u).2 = .ok r'' ∧
            r''.pair = false ∧ Clean r'' rest := by
          have hclean' := hpair.2
          rw [Clean] at hclean'
          cases hu : (scan r' u).2 with
          | error e =>
            obtain ⟨e', he'⟩ := hend
            have hfail : scan r' u = ((scan r' u).1, .error e) := Prod.ext rfl hu
            rw [hfail, scanOn_error] at he'
            cases he'
          | ok r'' =>
            rw [hu] at hclean'
            exact ⟨r'', rfl, hclean'⟩
        have hholds := hfresh.fill hnul
        have hread := readFresh_cons (g := gs n) hfresh hne rest errno' s
        rw [← hrun] at hread
        by_cases hout : (scan r' u).1 = []
        · have hstalls := parseFresh_stalls (hgs n) hholds hne (Prod.ext hout hr'') hpair'.1 rest
            errno' s
          rw [← hread] at hstalls
          exact readAll_stalls hstalls hout
        · have hreturns := parseFresh_returns (hgs n) hholds hout rest errno' s
          rw [← hread] at hreturns
          refine ReadsAll.cons (readAll_returns ?_ ?_) hout hr''
          · rw [scanOn_silent]
            exact hreturns
          rintro iow'' s' errno'' hwait ⟨x, hq⟩
          rw [scanOn_silent] at hq
          obtain ⟨hend', hclean', hr, hn'⟩ := scan_after_tree hq hr'' hpair' hend hn
          exact ih hwait hrest hend' hclean' hr hn'
    · rw [scan_append] at hend hn
      refine readAll_returns
        (readOneSexp_left (hgs n) hi hsome errno) ?_
      rintro iow' s' errno' hwait ⟨x, hq⟩
      obtain ⟨hend', hclean', hr, hn'⟩ := scan_after_tree hq hr' hpair hend hn
      exact ih hwait hpieces hend' hclean' hr hn'

lemma productive_iff {e : Reader} (hend : (scan r pieces.flatten).2 = .ok e) :
    Productive r pieces ↔ ∀ n < pieces.length,
      (scan r (pieces.take n).flatten).1.length < (scan r (pieces.take (n + 1)).flatten).1.length := by
  induction pieces generalizing r with
  | nil => simp [Productive]
  | cons u rest ih =>
    rcases hu : scan r u with ⟨out, e' | r'⟩
    · rw [List.flatten_cons, scan_append, hu, scanOn_error] at hend
      cases hend
    · rw [List.flatten_cons, scan_append, hu, scanOn_ok] at hend
      have htake : ∀ n, (scan r ((u :: rest).take (n + 1)).flatten).1 =
          out ++ (scan r' (rest.take n).flatten).1 := by
        intro n
        rw [List.take_succ_cons, scan_flatten_cons, hu, scanOn_ok]
      have hfirst : (0 < out.length) ↔ (scan r u).1 ≠ [] := by
        rw [hu, List.length_pos_iff]
      have hrest := ih hend
      constructor
      · rintro ⟨hsome, hprod⟩ n hn
        rw [htake]
        cases n with
        | zero => simpa using hfirst.mpr hsome
        | succ n =>
          rw [htake, List.length_append, List.length_append]
          have := hrest.mp (hprod r' (by rw [hu])) n (Nat.lt_of_succ_lt_succ hn)
          omega
      · intro hall
        have hzero := hall 0 (Nat.succ_pos _)
        rw [htake] at hzero
        have hsome : (scan r u).1 ≠ [] := hfirst.mp (by simpa using hzero)
        refine (productive_cons hsome (by rw [hu])).mpr (hrest.mpr fun n hn => ?_)
        have hnext := hall (n + 1) (Nat.succ_lt_succ hn)
        rw [htake, htake, List.length_append, List.length_append] at hnext
        omega

/-- The piece `n` completes an expression of the stream. -/
def Completes (pieces : List (List Byte)) (n : Nat) : Prop :=
  (scan Reader.start (pieces.take n).flatten).1.length <
    (scan Reader.start (pieces.take (n + 1)).flatten).1.length

instance (pieces : List (List Byte)) (n : Nat) : Decidable (Completes pieces n) :=
  inferInstanceAs (Decidable (_ < _))

/-- The pieces in front of the one that stops the client complete an expression each, and it none. -/
lemma Stopped.first {rs : Readings} {done : List (List Byte)} {e : Reader}
    (h : Stopped rs ([], .ok Reader.start) .none Reader.start done u)
    (hend : (scan Reader.start (done ++ u :: rest).flatten).2 = .ok e) :
    (∀ m < done.length, Completes (done ++ u :: rest) m) ∧
      ¬ Completes (done ++ u :: rest) done.length := by
  have htake : (done ++ u :: rest).take (done.length + 1) = done ++ [u] := by
    rw [List.take_length_add_append]
    rfl
  constructor
  · obtain ⟨e', hdone⟩ : ∃ e', (scan Reader.start done.flatten).2 = .ok e' := by
      rw [List.flatten_append, scan_append] at hend
      rcases hscan : scan Reader.start done.flatten with ⟨out, e' | r'⟩
      · rw [hscan, scanOn_error] at hend
        cases hend
      · exact ⟨r', rfl⟩
    intro m hm
    have hcompletes := (productive_iff hdone).mp h.productive m hm
    rw [Completes, List.take_append_of_le_length hm, List.take_append_of_le_length (Nat.le_of_lt hm)]
    exact hcompletes
  · have hsilent := h.silent
    rw [scanOn_silent, scanOn_silent] at hsilent
    rw [Completes, htake, List.take_left, hsilent]
    exact Nat.lt_irrefl _

end Client

section Size

variable {g : Setup} {iow : IoWrap} {pieces : List (List Byte)} {errno : ErrCode} {steps : Trail}
variable {bufsiz : Nat} {R : OneRead}

/-- `buf` has `bufsiz` cells, and the pieces that are left fit into it. -/
structure RoomToRead (bufsiz : Nat) (iow : IoWrap) (pieces : List (List Byte)) : Prop where
  buf : iow.buf.length = bufsiz
  pieces : ∀ u ∈ pieces, u.length ≤ bufsiz

lemma RoomToRead.fill {u : List Byte} {rest : List (List Byte)} (h : RoomToRead bufsiz iow (u :: rest)) :
    RoomToRead bufsiz (iow.fill u) rest := by
  obtain ⟨hu, hrest⟩ := List.forall_mem_cons.mp h.pieces
  refine ⟨?_, hrest⟩
  rw [IoWrap.fill, List.length_append, List.length_drop, h.buf, Nat.add_sub_cancel' hu]

lemma RoomToRead.fill_headD (h : RoomToRead bufsiz iow pieces) :
    RoomToRead bufsiz (iow.fill (pieces.headD [])) pieces.tail := by
  cases pieces with
  | nil => exact ⟨by simpa [IoWrap.fill] using h.buf, h.pieces⟩
  | cons u rest => exact h.fill

lemma readMore_room {cc : Pcont} (hrun : readMore g pieces iow cc errno steps = some R)
    (h : RoomToRead bufsiz iow pieces) : RoomToRead bufsiz R.iow R.pieces := by
  induction pieces generalizing iow cc errno steps with
  | nil =>
    rw [readMore] at hrun
    split_ifs at hrun
    all_goals
      cases hrun
      exact ⟨h.buf, h.pieces⟩
  | cons u rest ih =>
    rw [readMore] at hrun
    split_ifs at hrun with hlast herror
    · cases hrun
      exact ⟨h.buf, h.pieces⟩
    · cases hrun
      exact ⟨h.buf, h.pieces⟩
    · have hfill : RoomToRead bufsiz ({ iow with cc := some cc }.fill u) rest :=
        RoomToRead.fill ⟨h.buf, h.pieces⟩
      dsimp only at hrun
      split_ifs at hrun with hcnt
      · cases hrun
        exact hfill
      · split at hrun
        · exact ih hrun ⟨hfill.buf, hfill.pieces⟩
        · cases hrun

lemma parseFresh_room (hrun : parseFresh g iow pieces errno steps = some R)
    (h : RoomToRead bufsiz iow pieces) : RoomToRead bufsiz R.iow R.pieces := by
  rw [parseFresh] at hrun
  split at hrun
  · exact readMore_room hrun h
  · cases hrun

lemma readFresh_room (hrun : readFresh g iow pieces errno steps = some R)
    (h : RoomToRead bufsiz iow pieces) : RoomToRead bufsiz R.iow R.pieces := by
  rw [readFresh] at hrun
  dsimp only at hrun
  split_ifs at hrun with hcnt hempty
  · cases hrun
    exact h.fill_headD
  · exact parseFresh_room hrun h.fill_headD
  · exact parseFresh_room hrun h

lemma readOneSexp_room (hrun : readOneSexp g iow pieces errno = some R)
    (h : RoomToRead bufsiz iow pieces) : RoomToRead bufsiz R.iow R.pieces := by
  rw [readOneSexp] at hrun
  split_ifs at hrun with hpos
  · split at hrun
    · split_ifs at hrun
      · cases hrun
        exact ⟨h.buf, h.pieces⟩
      · exact readFresh_room hrun ⟨h.buf, h.pieces⟩
    · cases hrun
      exact ⟨h.buf, h.pieces⟩
    · cases hrun
  · exact readFresh_room hrun h

/-- No read goes over the end of `buf`. -/
lemma readAll_room {gs : Nat → Setup} {n : Nat} {rs : Readings} (h : RoomToRead bufsiz iow pieces)
    (hrun : readAll gs n iow pieces errno = some rs) : rs.iow.buf.length = bufsiz := by
  induction n generalizing iow pieces errno rs with
  | zero => cases hrun
  | succ n ih =>
    rw [readAll] at hrun
    split at hrun
    · cases hrun
    · rename_i R hone
      have hroom := readOneSexp_room hone h
      split_ifs at hrun with hnull
      · cases hrun
        exact hroom.buf
      · obtain ⟨rs', hrs', rfl⟩ := Option.map_eq_some_iff.mp hrun
        exact @ih R.iow R.pieces R.errno rs' hroom hrs'

end Size

/-- The client has got the expressions of the bytes `text`, and each of them is read once. -/
structure ServedUpTo (rs : Readings) (text : List Byte) : Prop where
  trees : rs.trees.flatMap forest = (scan Reader.start text).1
  fed : rs.fed = text

lemma Got.servedUpTo {rs : Readings} {pieces : List (List Byte)}
    (h : Got rs ([], .ok Reader.start) .none pieces) : ServedUpTo rs pieces.flatten := by
  refine ⟨h.trees, ?_⟩
  rw [h.steps, Trail.none_append, Trail.all]

/-- The piece `(a` is read twice. -/
example : (readOneSexp .plain ⟨none, List.replicate 6 nul, 0⟩ [[lparen, 97]] .ok).bind (fun r =>
      (readOneSexp .plain r.iow r.pieces r.errno).map fun r' => r.fed ++ r'.fed) =
    some [lparen, 97, lparen, 97] := by
  decide +kernel

end Sfsexp.Proofs
