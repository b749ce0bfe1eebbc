import Sfsexp.Proofs.IoWrap

/-!
# The places a client of `read_one_sexp` hears of

Whatever the mode: what a call steps over lies in the piece in `buf` or in pieces read later, and a
byte in front of `lastPos` is not stepped over any more.
-/

namespace Sfsexp.Proofs

open Sfsexp Spec

/-- What was logged behind `before` meets `P`. -/
def LogsOnly (P : BytePlace → Prop) (before places : List BytePlace) : Prop :=
  ∃ more, places = before ++ more ∧ ∀ x ∈ more, P x

section LogsOnly

variable {P Q : BytePlace → Prop} {before places places' : List BytePlace}

lemma LogsOnly.refl : LogsOnly P before before := ⟨[], by simp, by simp⟩

lemma LogsOnly.mono (h : LogsOnly P before places) (hPQ : ∀ x, P x → Q x) :
    LogsOnly Q before places := by
  obtain ⟨more, hsplit, hall⟩ := h
  exact ⟨more, hsplit, fun x hx => hPQ x (hall x hx)⟩

lemma LogsOnly.trans (h : LogsOnly P before places) (h' : LogsOnly P places places') :
    LogsOnly P before places' := by
  obtain ⟨more, rfl, hall⟩ := h
  obtain ⟨more', rfl, hall'⟩ := h'
  refine ⟨more ++ more', by rw [List.append_assoc], fun x hx => ?_⟩
  rcases List.mem_append.mp hx with hx | hx
  · exact hall x hx
  · exact hall' x hx

lemma LogsOnly.mem (h : LogsOnly P before places) {x : BytePlace} (hx : x ∈ before) : x ∈ places := by
  obtain ⟨more, rfl, -⟩ := h
  exact List.mem_append_left more hx

lemma LogsOnly.not_mem (h : LogsOnly P before places) {x : BytePlace} (hx : x ∉ before) (hP : ¬ P x) :
    x ∉ places := by
  obtain ⟨more, rfl, hall⟩ := h
  rw [List.mem_append]
  rintro (hin | hin)
  · exact hx hin
  · exact hP (hall x hin)

end LogsOnly

section Places

variable {iow : IoWrap} {R : Return} {x : BytePlace} {left : Nat} {pieces : List (List Byte)}

lemma left_of_mem_placesOf (h : x ∈ placesOf pieces) : x.left < pieces.length := by
  induction pieces with
  | nil => cases h
  | cons u rest ih =>
    rw [placesOf, List.mem_append, List.mem_map] at h
    rcases h with ⟨i, -, rfl⟩ | h
    · exact Nat.lt_succ_self _
    · exact Nat.lt_succ_of_lt (ih h)

/-- The places of the first piece. -/
lemma mem_placesOf_cons {u : List Byte} {i : Nat} :
    ⟨pieces.length, i⟩ ∈ placesOf (u :: pieces) ↔ i < u.length := by
  have hrest : (⟨pieces.length, i⟩ : BytePlace) ∉ placesOf pieces :=
    fun h => Nat.lt_irrefl _ (left_of_mem_placesOf h)
  rw [placesOf, List.mem_append, or_iff_left hrest, List.mem_map]
  constructor
  · rintro ⟨j, hj, heq⟩
    cases heq
    simpa using hj
  · intro hi
    exact ⟨i, by simpa using hi, rfl⟩

lemma mem_stepped : x ∈ (iow.stepped left R).places ↔
    x.left = left ∧ (iow.cc.bind (·.lastPos)).getD 0 ≤ x.pos ∧ x.pos < R.cursor := by
  rw [IoWrap.stepped, List.mem_map]
  constructor
  · rintro ⟨i, hi, rfl⟩
    rw [List.mem_range'_1] at hi
    dsimp only
    exact ⟨rfl, hi.1, by omega⟩
  · rintro ⟨rfl, hlow, hhigh⟩
    exact ⟨x.pos, by rw [List.mem_range'_1]; omega, rfl⟩

lemma logsOnly_stepped (before : Trail) :
    LogsOnly (·.left < left + 1) before.places (before ++ iow.stepped left R).places :=
  ⟨_, rfl, fun _ hx => Nat.lt_succ_of_le (Nat.le_of_eq (mem_stepped.mp hx).1)⟩

end Places

section Calls

variable {g : Setup} {iow : IoWrap} {pieces : List (List Byte)} {cc : Pcont} {errno : ErrCode}
variable {before : Trail} {R : OneRead} {x : BytePlace}

/-- A call leaves at most `m` pieces to read, and steps over bytes behind whose pieces there were
less than `n`. -/
structure ReadsBelow (m n : Nat) (before : Trail) (R : OneRead) : Prop where
  pieces : R.pieces.length ≤ m
  places : LogsOnly (·.left < n) before.places R.places

lemma ReadsBelow.mono {m m' n n' : Nat} (h : ReadsBelow m n before R) (hm : m ≤ m') (hn : n ≤ n') :
    ReadsBelow m' n' before R :=
  ⟨Nat.le_trans h.pieces hm, h.places.mono fun _ hx => Nat.lt_of_lt_of_le hx hn⟩

lemma readMore_places (hrun : readMore g pieces iow cc errno before = some R) :
    ReadsBelow pieces.length pieces.length before R := by
  induction pieces generalizing iow cc errno before with
  | nil =>
    rw [readMore] at hrun
    split_ifs at hrun
    all_goals
      cases hrun
      exact ⟨Nat.le_refl _, .refl⟩
  | cons u rest ih =>
    rw [readMore] at hrun
    split_ifs at hrun with hlast herror
    · cases hrun
      exact ⟨Nat.le_refl _, .refl⟩
    · cases hrun
      exact ⟨Nat.le_refl _, .refl⟩
    · dsimp only at hrun
      split_ifs at hrun with hcnt
      · cases hrun
        exact ⟨Nat.le_succ _, .refl⟩
      · split at hrun
        · have hrest := (ih hrun).mono (Nat.le_succ _) (Nat.le_succ _)
          exact ⟨hrest.pieces, (logsOnly_stepped before).trans hrest.places⟩
        · cases hrun

lemma parseFresh_places (hrun : parseFresh g iow pieces errno before = some R) :
    ReadsBelow pieces.length (pieces.length + 1) before R := by
  rw [parseFresh] at hrun
  split at hrun
  · have hrest := (readMore_places hrun).mono (Nat.le_refl _) (Nat.le_succ _)
    exact ⟨hrest.pieces, (logsOnly_stepped before).trans hrest.places⟩
  · cases hrun

/-- A call that reads has done with the piece before. -/
lemma readFresh_places (hrun : readFresh g iow pieces errno before = some R) (hcnt : iow.cnt = 0) :
    ReadsBelow (pieces.length - 1) pieces.length before R := by
  rw [readFresh, if_pos hcnt] at hrun
  cases pieces with
  | nil =>
    cases hrun
    exact ⟨Nat.le_refl _, .refl⟩
  | cons u rest =>
    dsimp only at hrun
    split_ifs at hrun
    · cases hrun
      exact ⟨Nat.le_refl _, .refl⟩
    · exact parseFresh_places hrun

lemma readOneSexp_places (hrun : readOneSexp g iow pieces errno = some R) :
    ReadsBelow pieces.length (pieces.length + 1) .none R := by
  have hfresh : ∀ {iow : IoWrap} {errno : ErrCode} {before : Trail},
      readFresh g iow pieces errno before = some R →
        ReadsBelow pieces.length (pieces.length + 1) before R := by
    intro iow errno before hrun
    by_cases hcnt : iow.cnt = 0
    · exact (readFresh_places hrun hcnt).mono (Nat.sub_le _ _) (Nat.le_succ _)
    · rw [readFresh, if_neg hcnt] at hrun
      exact parseFresh_places hrun
  rw [readOneSexp] at hrun
  split_ifs at hrun with hpos
  · split at hrun
    · rename_i R' _
      dsimp only at hrun
      have hstep := @logsOnly_stepped iow R' pieces.length .none
      split_ifs at hrun with hlast
      · cases hrun
        exact ⟨Nat.le_refl _, hstep⟩
      · have hrest := hfresh hrun
        exact ⟨hrest.pieces, hstep.trans hrest.places⟩
    · cases hrun
      exact ⟨Nat.le_refl _, .refl⟩
    · cases hrun
  · exact hfresh hrun

/-- A client makes a call, which is the last one or followed by others. -/
lemma readThrough_call {gs : Nat → Setup} {n : Nat} {rs : Readings}
    (hrun : readThrough gs n iow pieces errno = some rs) :
    ∃ m R, n = m + 1 ∧ readOneSexp (gs m) iow pieces errno = some R ∧
      ((R.sx = [] ∧ R.errno = .ioEmpty ∧ rs = R.last) ∨
        (¬ (R.sx = [] ∧ R.errno = .ioEmpty) ∧
          ∃ rs', readThrough gs m R.iow R.pieces R.errno = some rs' ∧ rs = R.before rs')) := by
  cases n with
  | zero => cases hrun
  | succ n =>
    rw [readThrough] at hrun
    split at hrun
    · cases hrun
    · rename_i R hone
      refine ⟨n, R, rfl, hone, ?_⟩
      split_ifs at hrun with hlast
      · cases hrun
        exact .inl ⟨hlast.1, hlast.2, rfl⟩
      · obtain ⟨rs', hrs', rfl⟩ := Option.map_eq_some_iff.mp hrun
        exact .inr ⟨hlast, rs', hrs', rfl⟩

/-- What a call steps over is what the client hears of. -/
lemma mem_of_call {gs : Nat → Setup} {n : Nat} {rs : Readings}
    (hrun : readThrough gs (n + 1) iow pieces errno = some rs)
    (hone : readOneSexp (gs n) iow pieces errno = some R) (hx : x ∈ R.places) : x ∈ rs.places := by
  obtain ⟨m, R', hm, hone', hrest⟩ := readThrough_call hrun
  cases hm
  rw [hone] at hone'
  cases hone'
  rcases hrest with ⟨-, -, rfl⟩ | ⟨-, rs', -, rfl⟩
  · exact hx
  · exact List.mem_append_left _ hx

/-- The call of the parser goes on where it stands or at the start of a piece. -/
lemma parse_onward {cc : Pcont} {R : Return} (hcc : iow.cc = some cc) (hsane : Sane cc.toRegs)
    (hrun : iow.parse g errno = .ret R) :
    Sane R.cc.toRegs ∧ cc.lastPos.getD 0 ≤ R.cursor ∧ Marked R := by
  rw [IoWrap.parse, hcc] at hrun
  have hcall := cparseSexp_eq_run ⟨g, iow.memory, iow.cnt, errno⟩ cc
  dsimp only at hcall
  rw [hcall] at hrun
  have hret := ret_of_ofStop (congrArg Result.returnOf hrun)
  obtain ⟨l, hreach, hexit⟩ := Loop.exit_of_halts ⟨_, hret⟩
  have hstep : ∀ l l' : Locals, Sane l.toRegs ∧ cc.lastPos.getD 0 ≤ l.t →
      Call.head ⟨g, iow.memory, iow.cnt, errno⟩ cc l = .ok l' →
      Sane l'.toRegs ∧ cc.lastPos.getD 0 ≤ l'.t := by
    rintro l l' ⟨hs, hle⟩ hnext
    have hm := @moves_callHead ⟨g, iow.memory, iow.cnt, errno⟩ cc l hs
    rw [hnext] at hm
    exact ⟨hm.1.sane, Nat.le_trans hle hm.1.low⟩
  obtain ⟨hs, hle⟩ := Loop.invariant_of_step hstep ⟨hsane, Nat.le_refl _⟩ hreach
  have hm := @moves_callHead ⟨g, iow.memory, iow.cnt, errno⟩ cc l hs
  rw [hexit] at hm
  exact ⟨hm.sane, Nat.le_trans hle hm.low, hm.marked⟩

/-- The parser does not stand at the start of a text, unless it has to. -/
def OffStart (cc : Option Pcont) : Prop :=
  ∀ cc', cc = some cc' → Sane cc'.toRegs ∧ cc'.lastPos ≠ some 0

/-- No call steps over the byte at `x` any more: its piece is behind, or it is the first byte of the
piece in `buf`, which is not passed from its start again. -/
def IsPast (x : BytePlace) (iow : IoWrap) (pieces : List (List Byte)) : Prop :=
  pieces.length < x.left ∨
    (pieces.length = x.left ∧ x.pos = 0 ∧ iow.cnt = 0 ∧ OffStart iow.cc)

/-- A call leaves the place `x` out, and for good. -/
structure LeavesOut (x : BytePlace) (before : Trail) (R : OneRead) : Prop where
  places : LogsOnly (· ≠ x) before.places R.places
  past : IsPast x R.iow R.pieces

lemma ReadsBelow.leavesOut {m n : Nat} (h : ReadsBelow m n before R) (hm : m < x.left)
    (hn : n ≤ x.left) : LeavesOut x before R := by
  refine ⟨h.places.mono ?_, .inl (Nat.lt_of_le_of_lt h.pieces hm)⟩
  rintro y hy rfl
  exact absurd hy (Nat.not_lt.mpr hn)

lemma readMore_leavesOut (hrun : readMore g pieces iow cc errno before = some R)
    (hleft : pieces.length = x.left) (hpos : x.pos = 0) (hcnt : iow.cnt = 0)
    (hcc : OffStart (some cc)) : LeavesOut x before R := by
  have hhere : IsPast x { iow with cc := some cc } pieces := .inr ⟨hleft, hpos, hcnt, hcc⟩
  have htake : IsPast x { iow with cc := some { cc with lastSexp := [] } } pieces := by
    refine .inr ⟨hleft, hpos, hcnt, ?_⟩
    rintro cc' hcc'
    cases hcc'
    exact hcc cc rfl
  cases pieces with
  | nil =>
    rw [readMore] at hrun
    split_ifs at hrun
    · cases hrun
      exact ⟨.refl, htake⟩
    · cases hrun
      exact ⟨.refl, hhere⟩
    · cases hrun
      exact ⟨.refl, .inr ⟨hleft, hpos, rfl, hcc⟩⟩
  | cons u rest =>
    have hlt : rest.length < x.left := Nat.lt_of_lt_of_eq (Nat.lt_succ_self _) hleft
    rw [readMore] at hrun
    split_ifs at hrun
    · cases hrun
      exact ⟨.refl, htake⟩
    · cases hrun
      exact ⟨.refl, hhere⟩
    · dsimp only at hrun
      split_ifs at hrun
      · cases hrun
        exact ⟨.refl, .inl hlt⟩
      · split at hrun
        · have hrest := (readMore_places hrun).mono (Nat.le_refl _) (Nat.le_succ _)
          exact ReadsBelow.leavesOut
            ⟨hrest.pieces, (logsOnly_stepped before).trans hrest.places⟩ hlt hlt
        · cases hrun

lemma readFresh_leavesOut (hrun : readFresh g iow pieces errno before = some R)
    (hpast : pieces.length = x.left ∧ x.pos = 0 ∧ iow.cnt = 0 ∧ OffStart iow.cc) :
    LeavesOut x before R := by
  obtain ⟨hleft, hpos, hcnt, hcc⟩ := hpast
  cases pieces with
  | nil =>
    rw [readFresh, if_pos hcnt] at hrun
    cases hrun
    exact ⟨.refl, .inr ⟨hleft, hpos, rfl, hcc⟩⟩
  | cons u rest =>
    have hlt : rest.length < x.left := Nat.lt_of_lt_of_eq (Nat.lt_succ_self _) hleft
    exact (readFresh_places hrun hcnt).leavesOut hlt hlt

lemma readOneSexp_leavesOut (hrun : readOneSexp g iow pieces errno = some R)
    (hpast : IsPast x iow pieces) : LeavesOut x .none R := by
  rcases hpast with hlt | ⟨hleft, hpos, hcnt, hcc⟩
  · exact (readOneSexp_places hrun).leavesOut hlt hlt
  · rw [readOneSexp] at hrun
    split_ifs at hrun with hsome
    · obtain ⟨p, hp⟩ := Option.isSome_iff_exists.mp hsome
      obtain ⟨cc, hcc', hlast⟩ := Option.bind_eq_some_iff.mp hp
      obtain ⟨hsane, hne⟩ := hcc cc hcc'
      split at hrun
      · rename_i R' hparse
        dsimp only at hrun
        obtain ⟨hsane', hlow, hmark⟩ := parse_onward hcc' hsane hparse
        rw [hlast] at hlow hne
        have hp0 : p ≠ 0 := fun h => hne (congrArg some h)
        have hoff : R'.cc.lastPos ≠ some 0 := by
          intro h
          have := hmark 0 h
          simp only [Option.getD_some] at hlow
          omega
        have hstep : LogsOnly (· ≠ x) Trail.none.places (iow.stepped pieces.length R').places := by
          refine ⟨_, rfl, ?_⟩
          rintro y hy rfl
          have hy' := (mem_stepped.mp hy).2.1
          rw [hp, Option.getD_some] at hy'
          omega
        split_ifs at hrun
        · cases hrun
          refine ⟨hstep, .inr ⟨hleft, hpos, hcnt, ?_⟩⟩
          rintro cc' hcc''
          cases hcc''
          exact ⟨hsane', hoff⟩
        · have hrest := readFresh_leavesOut hrun ⟨hleft, hpos, rfl, ?_⟩
          · exact ⟨hstep.trans hrest.places, hrest.past⟩
          · rintro cc' hcc''
            cases hcc''
            exact ⟨hsane', hoff⟩
      · cases hrun
        exact ⟨.refl, .inr ⟨hleft, hpos, hcnt, fun cc' h => by cases h⟩⟩
      · cases hrun
    · exact readFresh_leavesOut hrun ⟨hleft, hpos, hcnt, hcc⟩

lemma readThrough_leavesOut {gs : Nat → Setup} {n : Nat} {rs : Readings}
    (hrun : readThrough gs n iow pieces errno = some rs) (hpast : IsPast x iow pieces) :
    x ∉ rs.places := by
  induction n generalizing iow pieces errno rs with
  | zero => cases hrun
  | succ n ih =>
    obtain ⟨m, R, hm, hone, hrest⟩ := readThrough_call hrun
    cases hm
    have hcall := readOneSexp_leavesOut hone hpast
    have hhere : x ∉ R.places := hcall.places.not_mem (by simp) (by simp)
    rcases hrest with ⟨-, -, rfl⟩ | ⟨-, rs', hrs', rfl⟩
    · exact hhere
    · rw [OneRead.before, Trail.append_places, List.mem_append]
      exact not_or.mpr ⟨hhere, ih hrs' hcall.past⟩

end Calls

end Sfsexp.Proofs
