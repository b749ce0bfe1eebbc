import Sfsexp.Proofs.EventPieces

/-!
# Which streams are fed once

A wrapper that stalled passes its piece to the parser again, from the first byte. So a client in mode
`PARSER_NORMAL` hears of that byte twice, where it may go on at all.
-/

namespace Sfsexp.Proofs

open Sfsexp Spec

section Calls

variable {g : Setup} {iow : IoWrap} {u tail : List Byte} {p : Nat} {r r' : Reader}
variable {pieces : List (List Byte)} {errno : ErrCode} {before : Trail} {R : OneRead} {R' : Return}
variable {x : BytePlace}

/-- What a call of the parser does with a piece, if it returns at all. -/
inductive PieceEnds (u : List Byte) (p : Nat) (r : Reader) : Result → Prop where
  | ret (R : Return) (tail : List Byte) (hends : Ends u tail (scan r (u.drop p)) (.ret R)) :
      PieceEnds u p r (.ret R)
  | fault (f : Fault) : PieceEnds u p r (.fault f)

lemma HoldsPiece.ends (hg : g.Succeeds) (hi : HoldsPiece iow u p r) (errno : ErrCode) :
    PieceEnds u p r (iow.parse g errno) := by
  obtain ⟨tail, s, hcall, hends, -⟩ := parse_ends hg hi errno
  rw [hcall]
  cases s with
  | fault f => exact .fault f
  | ret R => exact .ret R tail hends

/-- What the first call of the parser steps over, when there is something left of the last piece. -/
lemma mem_of_left (hpos : (iow.cc.bind (·.lastPos)).isSome) (hparse : iow.parse g errno = .ret R')
    (hone : readOneSexp g iow pieces errno = some R)
    (hx : x ∈ (iow.stepped pieces.length R').places) : x ∈ R.places := by
  rw [readOneSexp, if_pos hpos, hparse] at hone
  dsimp only at hone
  split_ifs at hone
  · cases hone
    exact hx
  · exact (readFresh_places hone rfl).places.mem hx

/-- And when it reads. -/
lemma mem_of_fresh (hparse : iow.parse g errno = .ret R')
    (hone : parseFresh g iow pieces errno before = some R)
    (hx : x ∈ (iow.stepped pieces.length R').places) : x ∈ R.places := by
  rw [parseFresh, hparse] at hone
  exact (readMore_places hone).places.mem (List.mem_append_right _ hx)

lemma head_ne_of_get (hhead : u.head? ≠ some rparen) {i : Nat} (h : u[i]? = some rparen) : 0 < i := by
  rw [Nat.pos_iff_ne_zero]
  rintro rfl
  rw [← List.head?_eq_getElem?] at h
  exact hhead h

/-- A call of the parser steps over the first byte of a piece, or an expression ends before it. -/
lemma cursor_pos (hne : u ≠ []) (hhead : u.head? ≠ some rparen)
    (hends : Ends u tail (scan r u) (.ret R')) : 0 < R'.cursor ∨ ∃ y, TreeReturn y 0 R' := by
  cases hends with
  | more _ L hgood hq htree herror herrno hpos hcursor h3 =>
    rw [hcursor]
    exact .inl (List.length_pos_iff.mpr hne)
  | tree _ y p hr hp hq hlast =>
    cases p with
    | zero => exact .inr ⟨y, hr⟩
    | succ p =>
      rw [hr.cursor]
      exact .inl (Nat.succ_pos p)
  | bad _ hr hq hparen => exact .inl (head_ne_of_get hhead hparen)
  | overrun _ r₁ hq hpair hlex hs hbehind => exact .inl (Nat.zero_lt_of_lt (hbehind R' rfl))

/-- Between two expressions none ends before a byte. -/
lemma cursor_pos_start (hne : u ≠ []) (hhead : u.head? ≠ some rparen)
    (hends : Ends u tail (scan Reader.start u) (.ret R')) : 0 < R'.cursor := by
  rcases cursor_pos hne hhead hends with hpos | ⟨y, hy⟩
  · exact hpos
  · exfalso
    generalize hscan : scan Reader.start u = q at hends
    cases hends with
    | more _ L hgood hq htree =>
      have := hy.tree
      rw [htree] at this
      cases this
    | tree _ z p hr hp hq hlast =>
      have hp0 : p = 0 := hr.cursor.symm.trans hy.cursor
      rw [hq, hp0, List.drop_zero] at hscan
      have hlen := congrArg (List.length ∘ Prod.fst) hscan
      simp at hlen
    | bad _ hr hq hparen =>
      rw [hy.cursor] at hparen
      exact Nat.lt_irrefl _ (head_ne_of_get hhead hparen)
    | overrun _ r₁ hq hpair hlex hs hbehind =>
      have := hbehind R' rfl
      rw [hy.cursor] at this
      exact Nat.not_lt_zero _ this

/-- A call that neither ends the run nor steps over a byte behind the piece has read all of it, when
no expression ends there. -/
lemma HoldsPiece.silent (hg : g.Succeeds) (hi : HoldsPiece iow u p r) (errno : ErrCode)
    (hnone : (scan r (u.drop p)).1 = []) (hbad : (scan r (u.drop p)).2 ≠ .error .badForm)
    (hdef : ∀ f, iow.parse g errno ≠ .fault f)
    (hcursor : ∀ R', iow.parse g errno = .ret R' → R'.cursor ≤ u.length) :
    ∃ r', scan r (u.drop p) = ([], .ok r') ∧ r'.pair = false := by
  have hends := hi.ends hg errno
  generalize iow.parse g errno = o at hends hdef hcursor
  cases hends with
  | fault f => exact absurd rfl (hdef f)
  | ret R tail hends =>
    generalize scan r (u.drop p) = q at hends hnone hbad
    cases hends with
    | more _ L hgood hq => exact ⟨_, hq, rfl⟩
    | tree _ y p hr hp hq =>
      rw [hq] at hnone
      cases hnone
    | bad _ hr hq =>
      rw [hq] at hbad
      exact absurd rfl hbad
    | overrun _ r₁ hq hpair hlex hs hbehind =>
      exact absurd (hbehind R rfl) (Nat.not_lt.mpr (hcursor R rfl))

end Calls

section Client

variable {gs : Nat → Setup} {iow : IoWrap} {u : List Byte} {r : Reader} {s : Trail}
variable {pieces rest : List (List Byte)} {errno : ErrCode} {rs : Readings} {n : Nat}

/-- The client goes on at the first byte of a piece, with a parser between two expressions. -/
lemma readThrough_left (hgs : ∀ i, (gs i).Succeeds) (hi : HoldsPiece iow u 0 Reader.start)
    (hpos : (iow.cc.bind (·.lastPos)).isSome) (hne : u ≠ []) (hhead : u.head? ≠ some rparen)
    (hrun : readThrough gs n iow pieces errno = some rs) : ⟨pieces.length, 0⟩ ∈ rs.places := by
  obtain ⟨m, R, rfl, hone, -⟩ := readThrough_call hrun
  have hends := hi.ends (hgs m) errno
  generalize hparse : iow.parse (gs m) errno = o at hends
  cases hends with
  | fault f =>
    rw [readOneSexp, if_pos hpos, hparse] at hone
    cases hone
  | ret R' tail hends =>
    have hcursor := cursor_pos_start hne hhead hends
    refine mem_of_call hrun hone (mem_of_left hpos hparse hone (mem_stepped.mpr ?_))
    exact ⟨rfl, Nat.le_of_eq hi.pos, hcursor⟩

/-- After a call that stalled the piece is read from its first byte. -/
lemma readThrough_rereads (hgs : ∀ i, (gs i).Succeeds) (hi : HoldsPiece iow u 0 r)
    (hkeeps : KeepsPiece iow u) (hne : u ≠ []) (hhead : u.head? ≠ some rparen)
    (hrun : readThrough gs n iow pieces errno = some rs) : ⟨pieces.length, 0⟩ ∈ rs.places := by
  obtain ⟨m, R, rfl, hone, hrest⟩ := readThrough_call hrun
  have hfresh := hone
  rw [hkeeps.next] at hfresh
  have hends := hi.ends (hgs m) errno
  generalize hparse : iow.parse (gs m) errno = o at hends
  cases hends with
  | fault f =>
    rw [parseFresh, hparse] at hfresh
    cases hfresh
  | ret R' tail hends =>
    rcases cursor_pos hne hhead hends with hpos | ⟨y, hy⟩
    · refine mem_of_call hrun hone (mem_of_fresh hparse hfresh (mem_stepped.mpr ?_))
      exact ⟨rfl, Nat.le_of_eq hi.pos, hpos⟩
    · -- an expression that was open ends before the first byte, and is handed out alone
      rw [parseFresh, hparse] at hfresh
      dsimp only at hfresh
      rw [readMore.eq_def, if_pos (by simp [hy.tree])] at hfresh
      cases hfresh
      rcases hrest with ⟨hnil, -⟩ | ⟨-, rs', hrs', rfl⟩
      · rw [takeLast, hy.tree] at hnil
        cases hnil
      · refine List.mem_append_right _ (readThrough_left hgs (hi.taken hy (Nat.zero_le _)) ?_ hne hhead
          hrs')
        simp [hy.lastPos]

/-- The client gets an expression, and goes on. -/
lemma readThrough_handsOut {q : Outcome}
    (h : HandsOut (readOneSexp (gs n) iow pieces errno) q s rest)
    (hrun : readThrough gs (n + 1) iow pieces errno = some rs)
    (hplaces : rs.places = s.places ++ placesOf rest) :
    ∃ iow' s' errno' rs' y, Waiting rest.length iow' Reader.start s' ∧
      readThrough gs n iow' rest errno' = some rs' ∧ rs'.places = s'.places ++ placesOf rest ∧
      q = (y :: (scan Reader.start s'.fed).1, (scan Reader.start s'.fed).2) := by
  obtain ⟨R, y, s', hone, hsx, hpieces, hsteps, hq, hwait⟩ := h
  obtain ⟨m, R', hm, hone', hrest⟩ := readThrough_call hrun
  cases hm
  rw [hone] at hone'
  cases hone'
  rcases hrest with ⟨hnil, -⟩ | ⟨-, rs', hrs', rfl⟩
  · rw [hsx] at hnil
    cases hnil
  · rw [hpieces] at hrs'
    rw [OneRead.before, Trail.append_places, ← hsteps, Trail.append_places, List.append_assoc] at hplaces
    exact ⟨R.iow, s', R.errno, rs', y.tree, hwait, hrs', List.append_cancel_left hplaces, hq⟩

/-- The first of the pieces that completes no expression does not begin with a closing paren. -/
def StallsOffParen : Reader → List (List Byte) → Prop
  | _, [] => True
  | r, u :: rest => ((scan r u).1 = [] → u.head? ≠ some rparen) ∧
      ((scan r u).1 ≠ [] → ∀ r', (scan r u).2 = .ok r' → StallsOffParen r' rest)

/-- Each of the pieces completes an expression, for a parser in the state `q`, and none ends behind an
escape pair inside double quotes. -/
def FeedsAll (q : Except ReadErr Reader) (pieces : List (List Byte)) : Prop :=
  ∃ r', q = .ok r' ∧ r'.pair = false ∧ Clean r' pieces ∧ Productive r' pieces

lemma ParserIn.pair (h : ParserIn iow r) : r.pair = false := by
  rcases h with ⟨-, rfl⟩ | ⟨cc, L, -, -, -, rfl⟩
  · rfl
  · rfl

lemma Waiting.left_of_mem {left : Nat} (h : Waiting left iow r s) {x : BytePlace} (hx : x ∈ s.places) :
    left = x.left := by
  rcases h with ⟨u, p, -, -, rfl⟩ | ⟨-, rfl⟩
  · obtain ⟨i, -, rfl⟩ := List.mem_map.mp hx
    rfl
  · cases hx

/-- What is left of the last piece, when no expression ends there. -/
lemma silent_of_left (hgs : ∀ i, (gs i).Succeeds) (hwait : Waiting pieces.length iow r s)
    (hnone : (scan r s.fed).1 = []) (hbad : (scan r s.fed).2 ≠ .error .badForm)
    (hrun : readThrough gs (n + 1) iow pieces errno = some rs)
    (hplaces : rs.places = s.places ++ placesOf pieces) :
    ∃ r', scan r s.fed = ([], .ok r') ∧ r'.pair = false := by
  obtain ⟨m, R, hm, hone, -⟩ := readThrough_call hrun
  cases hm
  rcases hwait with ⟨u, p, hholds, hpos, rfl⟩ | ⟨hfresh, rfl⟩
  · refine hholds.silent (hgs n) errno hnone hbad (fun f hparse => ?_)
      fun R' hparse => ?_
    · rw [readOneSexp, if_pos hpos, hparse] at hone
      cases hone
    · by_contra hbehind
      have hstep : ⟨pieces.length, u.length⟩ ∈ (iow.stepped pieces.length R').places :=
        mem_stepped.mpr ⟨rfl, by rw [hholds.pos]; exact hholds.le, Nat.not_le.mp hbehind⟩
      have hin := mem_of_call hrun hone (mem_of_left hpos hparse hone hstep)
      rw [hplaces, List.mem_append] at hin
      rcases hin with hin | hin
      · obtain ⟨i, hi, heq⟩ := List.mem_map.mp hin
        rw [List.mem_range'_1] at hi
        cases heq
        have := hholds.le
        omega
      · exact Nat.lt_irrefl _ (left_of_mem_placesOf hin)
  · exact ⟨r, rfl, hfresh.parser.pair⟩

/-- A piece that completes no expression is fed twice, or not to its end. -/
lemma not_silent (hgs : ∀ i, (gs i).Succeeds) {iow' : IoWrap} {errno' : ErrCode}
    (hi : HoldsPiece iow' u 0 r) (hne : u ≠ []) (hhead : u.head? ≠ some rparen)
    (hone : readOneSexp (gs n) iow pieces errno = parseFresh (gs n) iow' rest errno' s)
    (hbad : (scan r u).2 ≠ .error .badForm)
    (hrun : readThrough gs (n + 1) iow pieces errno = some rs)
    (hplaces : rs.places = s.places ++ placesOf (u :: rest))
    (hbefore : ∀ x ∈ s.places, rest.length < x.left) : (scan r u).1 ≠ [] := by
  intro hnone
  obtain ⟨m, R, hm, hcall, hrest⟩ := readThrough_call hrun
  cases hm
  have hfresh := hcall
  rw [hone] at hfresh
  obtain ⟨r', hscan, hpair⟩ : ∃ r', scan r (u.drop 0) = ([], .ok r') ∧ r'.pair = false := by
    refine hi.silent (hgs n) errno' hnone hbad (fun f hparse => ?_) fun R' hparse => ?_
    · rw [parseFresh, hparse] at hfresh
      cases hfresh
    · by_contra hbehind
      have hstep : ⟨rest.length, u.length⟩ ∈ (iow'.stepped rest.length R').places :=
        mem_stepped.mpr ⟨rfl, by rw [hi.pos]; exact hi.le, Nat.not_le.mp hbehind⟩
      have hin := mem_of_call hrun hcall (mem_of_fresh hparse hfresh hstep)
      rw [hplaces, List.mem_append] at hin
      rcases hin with hin | hin
      · exact Nat.lt_irrefl _ (hbefore _ hin)
      · exact Nat.lt_irrefl _ (mem_placesOf_cons.mp hin)
  rw [List.drop_zero] at hscan
  obtain ⟨iow'', r'', hstall, hkeeps, hholds⟩ :=
    parseFresh_stalls (hgs n) hi hne hscan hpair rest errno' s
  rw [hfresh] at hstall
  cases hstall
  rcases hrest with ⟨-, herrno, -⟩ | ⟨-, rs', hrs', rfl⟩
  · cases herrno
  · have hin := readThrough_rereads hgs hholds hkeeps hne hhead hrs'
    rw [OneRead.before, Trail.append_places, noSexp, Trail.append_places, List.append_assoc] at hplaces
    have hrest := List.append_cancel_left (List.append_cancel_left hplaces)
    rw [hrest] at hin
    exact Nat.lt_irrefl _ (left_of_mem_placesOf hin)

/-- A client that hears of each byte once has pieces that complete an expression each. -/
lemma feedsAll_of_fedOnce (hgs : ∀ i, (gs i).Succeeds) (hwait : Waiting pieces.length iow r s)
    (hpieces : ∀ u ∈ pieces, u ≠ [] ∧ nul ∉ u)
    (hbad : (scanOn (scan r s.fed) pieces.flatten).2 ≠ .error .badForm)
    (hheads : ∀ r', (scan r s.fed).2 = .ok r' → StallsOffParen r' pieces)
    (hrun : readThrough gs n iow pieces errno = some rs)
    (hplaces : rs.places = s.places ++ placesOf pieces) : FeedsAll (scan r s.fed).2 pieces := by
  induction n generalizing iow r s pieces errno rs with
  | zero => cases hrun
  | succ n ih =>
    by_cases hnone : (scan r s.fed).1 = []
    · have hfirst : (scan r s.fed).2 ≠ .error .badForm := by
        intro herror
        have hscan : scan r s.fed = ([], .error .badForm) := Prod.ext hnone herror
        rw [hscan, scanOn_error] at hbad
        exact hbad rfl
      obtain ⟨r', hscan, hpair⟩ := silent_of_left hgs hwait hnone hfirst hrun hplaces
      rw [hscan, scanOn_silent] at hbad
      rw [hscan] at hheads ⊢
      obtain ⟨iow', errno', hone, hfresh⟩ := readOneSexp_reads (hgs n) hwait hscan hpair errno
      cases pieces with
      | nil => exact ⟨r', rfl, hpair, trivial, trivial⟩
      | cons u rest =>
        obtain ⟨⟨hne, hnul⟩, hrest⟩ := List.forall_mem_cons.mp hpieces
        obtain ⟨hhead, hheads⟩ := hheads r' rfl
        rw [List.flatten_cons, scan_append] at hbad
        rw [readFresh_cons hfresh hne] at hone
        have hholds := hfresh.fill hnul
        have hsome : (scan r' u).1 ≠ [] := by
          intro hsilent
          refine not_silent hgs hholds hne (hhead hsilent) hone (fun herror => ?_) hrun hplaces
            (fun x hx => hwait.left_of_mem hx ▸ Nat.lt_succ_self _) hsilent
          have hfail : scan r' u = ([], .error .badForm) := Prod.ext hsilent herror
          rw [hfail, scanOn_error] at hbad
          exact hbad rfl
        have hreturns := parseFresh_returns (hgs n) hholds hsome rest errno' s
        rw [← hone] at hreturns
        have hsplit : rs.places = (s ++ .rest rest.length u 0).places ++ placesOf rest := by
          rw [hplaces, Trail.append_places, List.append_assoc]
          rfl
        obtain ⟨iow'', s', errno'', rs', y, hwait', hrun', hplaces', hq⟩ :=
          readThrough_handsOut hreturns hrun hsplit
        have hnext := ih hwait' hrest (by
          rw [hq, scanOn_cons] at hbad
          exact hbad) (by
          intro r'' hr''
          exact hheads hsome r'' (by rw [hq]; exact hr'')) hrun' hplaces'
        obtain ⟨r'', hr'', hpair', hclean, hprod⟩ := hnext
        have hu : (scan r' u).2 = .ok r'' := by rw [hq]; exact hr''
        refine ⟨r', rfl, hpair, ?_, (productive_cons hsome hu).mpr hprod⟩
        rw [Clean, hu]
        exact ⟨hpair', hclean⟩
    · obtain ⟨iow', s', errno', rs', y, hwait', hrun', hplaces', hq⟩ :=
        readThrough_handsOut (readOneSexp_left (hgs n) hwait hnone errno) hrun hplaces
      rw [hq, scanOn_cons] at hbad
      rw [hq] at hheads ⊢
      exact ih hwait' hpieces hbad hheads hrun' hplaces'

lemma readThrough_of_readAll (hrun : readAll gs n iow pieces errno = some rs)
    (herrno : rs.errno = .ioEmpty) : readThrough gs n iow pieces errno = some rs := by
  induction n generalizing iow pieces errno rs with
  | zero => cases hrun
  | succ n ih =>
    rw [readAll] at hrun
    rw [readThrough]
    split at hrun
    · cases hrun
    · split_ifs at hrun with hnil
      · cases hrun
        exact if_pos ⟨hnil, herrno⟩
      · obtain ⟨rs', hrs', rfl⟩ := Option.map_eq_some_iff.mp hrun
        rw [if_neg fun h => hnil h.1, ih hrs' herrno]
        rfl

lemma ok_of_strayFree {w : List Byte} (hstray : StrayFree w)
    (hbad : (scan Reader.start w).2 ≠ .error .badForm) :
    ∃ e, (scan Reader.start w).2 = .ok e := by
  cases hscan : (scan Reader.start w).2 with
  | ok e => exact ⟨e, rfl⟩
  | error e =>
    cases e with
    | badForm => exact absurd hscan hbad
    | stray => exact absurd hscan hstray

lemma feedsAll_of_new (hgs : ∀ i, (gs i).Succeeds) (hfresh : Fresh iow Reader.start)
    (hpieces : ∀ u ∈ pieces, u ≠ [] ∧ nul ∉ u)
    (hbad : (scan Reader.start pieces.flatten).2 ≠ .error .badForm)
    (hheads : StallsOffParen Reader.start pieces) (errno : ErrCode)
    (hfed : FedOnce gs iow pieces errno) : FeedsAll (.ok Reader.start) pieces := by
  obtain ⟨n, rs, hrun, hplaces⟩ := hfed
  have hwait : Waiting pieces.length iow Reader.start .none := .inr ⟨hfresh, rfl⟩
  refine feedsAll_of_fedOnce hgs hwait hpieces hbad (fun r hr => ?_) hrun hplaces
  cases hr
  exact hheads

/-- Such pieces serve the client. -/
lemma servedOnce_of_feedsAll (hgs : ∀ i, (gs i).Succeeds) (hfresh : Fresh iow Reader.start)
    (hpieces : ∀ u ∈ pieces, u ≠ [] ∧ nul ∉ u)
    (hbad : (scan Reader.start pieces.flatten).2 ≠ .error .badForm) (errno : ErrCode)
    (hall : FeedsAll (.ok Reader.start) pieces) : ServedOnce gs iow pieces errno := by
  obtain ⟨r, hr, -, hclean, hprod⟩ := hall
  cases hr
  have hwait : Waiting pieces.length iow Reader.start .none := .inr ⟨hfresh, rfl⟩
  have hend := ok_of_strayFree ((clean_iff Reader.start rfl pieces).mp hclean).1 hbad
  obtain ⟨rs, hrs, hgets, -⟩ := @readAll_spec gs iow Reader.start .none pieces _ errno hgs hwait
    hpieces hend ⟨rfl, hclean⟩ Reader.start rfl (Nat.lt_succ_self _)
  obtain ⟨herrno, hgot⟩ := hgets hprod
  refine ⟨_, rs, readThrough_of_readAll hrs herrno, ?_, hgot.trees⟩
  rw [hgot.steps]
  rfl

end Client

section Streams

variable {gs : Nat → Setup} {iow : IoWrap} {u : List Byte} {r : Reader}
variable {pieces rest : List (List Byte)} {errno : ErrCode}

lemma bad_of_head (hhead : u.head? = some rparen) :
    scan Reader.start u = ([], .error .badForm) := by
  cases u with
  | nil => cases hhead
  | cons c w =>
    cases hhead
    rfl

lemma stallsOffParen_of_get
    (h : ∀ m u, pieces[m]? = some u →
      (∀ i < m, (scan r (pieces.take i).flatten).1.length <
        (scan r (pieces.take (i + 1)).flatten).1.length) →
      ¬ (scan r (pieces.take m).flatten).1.length <
        (scan r (pieces.take (m + 1)).flatten).1.length → u.head? ≠ some rparen) :
    StallsOffParen r pieces := by
  induction pieces generalizing r with
  | nil => trivial
  | cons u rest ih =>
    refine ⟨fun hnone => h 0 u rfl (fun i hi => absurd hi (Nat.not_lt_zero i)) ?_,
      fun hsome r' hr' => ih fun m v hv hbefore hnot => ?_⟩
    · simp [hnone]
    · have htake : ∀ n, (scan r ((u :: rest).take (n + 1)).flatten).1 =
          (scan r u).1 ++ (scan r' (rest.take n).flatten).1 := by
        intro n
        have hu : scan r u = ((scan r u).1, .ok r') := Prod.ext rfl hr'
        rw [List.take_succ_cons, scan_flatten_cons, hu, scanOn_ok]
      refine h (m + 1) v hv (fun i hi => ?_) ?_
      · cases i with
        | zero =>
          rw [htake]
          simpa using List.length_pos_iff.mpr hsome
        | succ i =>
          rw [htake, htake, List.length_append, List.length_append]
          exact Nat.add_lt_add_left (hbefore i (Nat.lt_of_succ_lt_succ hi)) _
      · rw [htake, htake, List.length_append, List.length_append]
        exact fun hlt => hnot (Nat.lt_of_add_lt_add_left hlt)

/-- Told from the stream and its cutting. -/
lemma feedsAll_iff (hbad : (scan Reader.start pieces.flatten).2 ≠ .error .badForm) :
    FeedsAll (.ok Reader.start) pieces ↔ StrayFree pieces.flatten ∧
      (∀ n, ¬ EndsInPair (pieces.take n).flatten) ∧ ∀ m < pieces.length, Completes pieces m := by
  have hclean := clean_iff Reader.start rfl pieces
  constructor
  · rintro ⟨r, hr, -, hc, hprod⟩
    cases hr
    obtain ⟨hstray, hpair⟩ := hclean.mp hc
    obtain ⟨e, he⟩ := ok_of_strayFree hstray hbad
    exact ⟨hstray, hpair, (productive_iff he).mp hprod⟩
  · rintro ⟨hstray, hpair, hcompletes⟩
    obtain ⟨e, he⟩ := ok_of_strayFree hstray hbad
    exact ⟨Reader.start, rfl, rfl, hclean.mpr ⟨hstray, hpair⟩, (productive_iff he).mpr hcompletes⟩

lemma fedOnce_of_servedOnce (h : ServedOnce gs iow pieces errno) : FedOnce gs iow pieces errno := by
  obtain ⟨n, rs, hrun, hplaces, -⟩ := h
  exact ⟨n, rs, hrun, hplaces⟩

/-- A stream that is fed once in both modes is one piece: its first one completes an expression for
the one parser, and the other is done with it. -/
lemma single_of_onlyLast (hgs : ∀ i, (gs i).Succeeds) (hfresh : Fresh iow Reader.start)
    (hpieces : ∀ u ∈ pieces, u ≠ [] ∧ nul ∉ u)
    (hbad : (scan Reader.start pieces.flatten).2 ≠ .error .badForm) :
    ServedOnce gs iow pieces errno ∧ OnlyLast Reader.start pieces ↔
      pieces = [] ∨ ∃ u, pieces = [u] ∧ EndsLast Reader.start u := by
  have hserved := servedOnce_of_feedsAll hgs hfresh hpieces hbad errno
  cases pieces with
  | nil => exact ⟨fun _ => .inl rfl,
      fun _ => ⟨hserved ⟨Reader.start, rfl, rfl, trivial, trivial⟩, trivial⟩⟩
  | cons u rest =>
    have hhead : u.head? ≠ some rparen := by
      intro hhead
      rw [List.flatten_cons, scan_append, bad_of_head hhead, scanOn_error] at hbad
      exact hbad rfl
    constructor
    · rintro ⟨honce, ⟨r', hscan, -⟩ | ⟨rfl, hends⟩⟩
      · have hheads : StallsOffParen Reader.start (u :: rest) :=
          ⟨fun _ => hhead, fun hsome => absurd (by rw [hscan]) hsome⟩
        obtain ⟨r, hr, -, -, hprod⟩ := feedsAll_of_new hgs hfresh hpieces hbad hheads errno
          (fedOnce_of_servedOnce honce)
        cases hr
        exact absurd (by rw [hscan]) hprod.1
      · exact .inr ⟨u, rfl, hends⟩
    · rintro (h | ⟨v, hv, hends⟩)
      · cases h
      · cases hv
        refine ⟨hserved ⟨Reader.start, rfl, rfl, ?_, ?_⟩, .inr ⟨rfl, hends⟩⟩
        all_goals obtain ⟨y, hy, -⟩ := hends
        · rw [Clean, hy]
          exact ⟨rfl, trivial⟩
        · rw [Productive, hy]
          exact ⟨by simp, fun _ _ => trivial⟩

/-- A client that calls `read_one_sexp` until `SEXP_ERR_IO_EMPTY`, on a stream without unmatched
closing parens. In both modes the parser steps over every byte once and in order, and in mode
`PARSER_NORMAL` the client gets the expressions of the stream, exactly when the stream is empty, or
one piece with one expression, which the last byte ends. In mode `PARSER_EVENTS_ONLY` alone the bytes
are fed once exactly when no piece ends behind an escape pair inside double quotes, and the stream
holds no complete expression, or one that its last byte ends. In mode `PARSER_NORMAL` alone they are
exactly when no token takes over an escape, no piece ends behind an escape pair inside double quotes,
and every piece completes an expression; and then the client gets the expressions. This last part is
about streams in which the first piece that completes no expression does not begin with a closing
paren: at such a paren the parser of a wrapper that stalled may stop in `SEXP_ERR_BADFORM`, without a
step. -/
theorem read_one_sexp_feeds_once (gs : Nat → Setup) (hgs : ∀ i, (gs i).Succeeds) (bufsiz : Nat)
    (pieces : List (List Byte)) (hpieces : ∀ u ∈ pieces, u ≠ [] ∧ u.length ≤ bufsiz ∧ nul ∉ u)
    (hbad : (scan Reader.start pieces.flatten).2 ≠ .error .badForm) (iow : IoWrap) (errno : ErrCode)
    (hinit : initIowrap bufsiz true errno = (some iow, errno)) (g : Setup) (hs : Option Handlers) :
    (ServedOnce gs iow pieces errno ∧ FedOnce gs (iow.listening g hs) pieces errno ↔
      pieces = [] ∨ ∃ u, pieces = [u] ∧ EndsLast Reader.start u) ∧
    (FedOnce gs (iow.listening g hs) pieces errno ↔ (∀ n, ¬ EndsInPair (pieces.take n).flatten) ∧
      ((∃ r, scan Reader.start pieces.flatten = ([], .ok r)) ∨
        EndsLast Reader.start pieces.flatten)) ∧
    ((∀ m u, pieces[m]? = some u → (∀ i < m, Completes pieces i) → ¬ Completes pieces m →
        u.head? ≠ some rparen) →
      (FedOnce gs iow pieces errno ↔ StrayFree pieces.flatten ∧
        (∀ n, ¬ EndsInPair (pieces.take n).flatten) ∧ ∀ m < pieces.length, Completes pieces m) ∧
      (FedOnce gs iow pieces errno → ServedOnce gs iow pieces errno)) := by
  have hnew : iow = ⟨none, List.replicate bufsiz nul, 0⟩ := by
    cases hinit
    rfl
  have hfresh : Fresh iow Reader.start := by
    rw [hnew]
    exact ⟨rfl, rfl, .inl ⟨rfl, rfl⟩⟩
  have hall : ∀ u ∈ pieces, u ≠ [] ∧ nul ∉ u := fun u hu => ⟨(hpieces u hu).1, (hpieces u hu).2.2⟩
  have hevents : FedOnce gs (iow.listening g hs) pieces errno ↔ OnlyLast Reader.start pieces :=
    events_fed_once hgs g hs rfl hfresh.cnt hall hbad
  refine ⟨?_, ?_, fun hheads => ?_⟩
  · rw [hevents]
    exact single_of_onlyLast hgs hfresh hall hbad
  · rw [hevents, onlyLast_iff fun u hu => (hall u hu).1, clean_iff Reader.start rfl]
    constructor
    · rintro ⟨⟨-, hpair⟩, hlast⟩
      exact ⟨hpair, hlast⟩
    · rintro ⟨hpair, hlast⟩
      refine ⟨⟨?_, hpair⟩, hlast⟩
      rcases hlast with ⟨r, hr⟩ | ⟨x, hx, -⟩
      · rw [hr]
        exact fun h => by cases h
      · rw [hx]
        exact fun h => by cases h
  · have hfeeds := feedsAll_of_new hgs hfresh hall hbad (stallsOffParen_of_get hheads) errno
    have hserved := servedOnce_of_feedsAll hgs hfresh hall hbad errno
    rw [← feedsAll_iff hbad]
    exact ⟨⟨hfeeds, fun h => fedOnce_of_servedOnce (hserved h)⟩, fun h => hserved (hfeeds h)⟩

/-- In mode `PARSER_NORMAL` the stream `(a) b (c) ` in two pieces, each of which completes an
expression, is served, and in mode `PARSER_EVENTS_ONLY` it is not fed; the stream `(a)` is in both. -/
theorem read_one_sexp_feeds_once_two :
    (ServedOnce (fun _ => .plain) ⟨none, List.replicate 8 nul, 0⟩
        [[lparen, 97, rparen, space, 98, space, lparen], [99, rparen, space]] .ok ∧
      ¬ FedOnce (fun _ => .plain)
        (IoWrap.listening ⟨none, List.replicate 8 nul, 0⟩ .plain (some allHandlers))
        [[lparen, 97, rparen, space, 98, space, lparen], [99, rparen, space]] .ok) ∧
    ServedOnce (fun _ => .plain) ⟨none, List.replicate 8 nul, 0⟩ [[lparen, 97, rparen]] .ok ∧
    FedOnce (fun _ => .plain)
      (IoWrap.listening ⟨none, List.replicate 8 nul, 0⟩ .plain (some allHandlers))
      [[lparen, 97, rparen]] .ok := by
  obtain ⟨-, hevents, hnormal⟩ := read_one_sexp_feeds_once (fun _ => .plain) (fun _ _ => rfl) 8
    [[lparen, 97, rparen, space, 98, space, lparen], [99, rparen, space]] (by decide)
    (fun h => by cases h) ⟨none, List.replicate 8 nul, 0⟩ .ok rfl .plain (some allHandlers)
  obtain ⟨hboth, -, -⟩ := read_one_sexp_feeds_once (fun _ => .plain) (fun _ _ => rfl) 8
    [[lparen, 97, rparen]] (by decide) (fun h => by cases h) ⟨none, List.replicate 8 nul, 0⟩ .ok
    rfl .plain (some allHandlers)
  have hcompletes : ∀ m < 2,
      Completes [[lparen, 97, rparen, space, 98, space, lparen], [99, rparen, space]] m := by
    decide
  have hpair : ∀ n, ¬ EndsInPair (([[lparen, 97, rparen, space, 98, space, lparen],
      [99, rparen, space]] : List _).take n).flatten := by
    rintro (_ | _ | n) ⟨r, hr, hp⟩
    case succ.succ =>
      rw [List.take_of_length_le (by simp)] at hr
      cases hr
      cases hp
    all_goals
      cases hr
      cases hp
  refine ⟨⟨?_, fun hfed => ?_⟩, hboth.mpr (.inr ⟨_, rfl, _, rfl, ?_⟩)⟩
  · obtain ⟨hiff, hserved⟩ := hnormal fun m u hu hbefore hnot => by
      have hm : m < 2 := by
        by_contra hm
        rw [List.getElem?_eq_none (Nat.not_lt.mp hm)] at hu
        cases hu
      exact absurd (hcompletes m hm) hnot
    exact hserved (hiff.mpr ⟨(fun h => by cases h), hpair, hcompletes⟩)
  · rcases (hevents.mp hfed).2 with ⟨r, hr⟩ | ⟨x, hx, -⟩
    · cases hr
    · cases hx
  · rintro c hc
    cases hc
    rfl

/-- In neither mode the stream ` a ` is fed once, when its last byte comes as a piece of its own. -/
theorem stream_not_fed_once :
    (scan Reader.start [space, 97, space]).2 ≠ .error .badForm ∧
    ¬ FedOnce (fun _ => .plain) ⟨none, List.replicate 8 nul, 0⟩ [[space, 97], [space]] .ok ∧
    ¬ FedOnce (fun _ => .plain)
      (IoWrap.listening ⟨none, List.replicate 8 nul, 0⟩ .plain (some allHandlers))
      [[space, 97], [space]] .ok := by
  have hbad : (scan Reader.start ([[space, 97], [space]] : List _).flatten).2 ≠ .error .badForm :=
    fun h => by cases h
  have hpieces : ∀ u ∈ ([[space, 97], [space]] : List _), u ≠ [] ∧ nul ∉ u := by decide
  refine ⟨hbad, fun hfed => ?_, fun hfed => ?_⟩
  · have hheads : StallsOffParen Reader.start [[space, 97], [space]] :=
      ⟨fun _ => by decide, fun h => absurd rfl h⟩
    obtain ⟨r, hr, -, -, hprod⟩ := feedsAll_of_new (fun _ _ => rfl) ⟨rfl, rfl, .inl ⟨rfl, rfl⟩⟩ hpieces
      hbad hheads .ok hfed
    cases hr
    exact absurd rfl hprod.1
  · have honly := (events_fed_once (fun _ _ => rfl) .plain (some allHandlers) rfl rfl hpieces hbad).mp
      hfed
    rcases (onlyLast_iff (by decide)).mp honly with ⟨-, ⟨r, hr⟩ | ⟨x, -, hlast⟩⟩
    · cases hr
    · cases hlast space rfl

/-- In mode `PARSER_NORMAL` the client gets the atom twice. -/
example : (readThrough (fun _ => .plain) 4 ⟨none, List.replicate 8 nul, 0⟩ [[space, 97], [space]]
      .ok).map (fun rs => (rs.fed, (rs.trees.flatMap forest).length)) =
    some ([space, 97, space, 97, space], 2) := by
  decide +kernel

end Streams

end Sfsexp.Proofs
