import Sfsexp.Proofs.PartialPrinting
import Sfsexp.Proofs.PartialText

/-!
# What `print_pcont` writes

With every allocation granted and a text that an `int` can count, the buffer holds the text that is to
be shown. A longer text ends at a position that wrapped around.
-/

namespace Sfsexp.Proofs

open Sfsexp Spec Filter

mutual
/-- A sealed text element can be printed. -/
lemma printable_of_sealed (x : Sexp) (h : Leaves TextAtom x) (hx : Sealed x) : Printable x := by
  match x, h, hx with
  | .value aty val _ valUsed, ⟨haty, hpos, _⟩, hx => exact ⟨haty, hpos, hx⟩
  | .list elems, h, hx => exact printableAll_of_sealed elems h hx

lemma printableAll_of_sealed (xs : List Sexp) (h : LeavesAll TextAtom xs) (hxs : SealedAll xs) :
    PrintableAll xs := by
  match xs, h, hxs with
  | [], _, _ => trivial
  | x :: xs, h, hxs => exact ⟨printable_of_sealed x h.1 hxs.1, printableAll_of_sealed xs h.2 hxs.2⟩
end

lemma intact_of_sealed {g : Setup} {x : Sexp} (hx : Sealed x) : Intact g x := by
  cases x with
  | value aty val valAllocated valUsed => exact fun _ _ => hx.2.1
  | list elems => trivial
  | blob bindata binlength => exact hx.elim

/-- A tree is a list without elements as its element is. -/
lemma tree_ne_open {x : Sexp} (hx : x ≠ .list []) : x.tree ≠ .list [] := by
  cases x with
  | value aty val valAllocated valUsed => exact fun h => by cases h
  | blob bindata binlength => exact fun h => by cases h
  | list elems =>
    cases elems with
    | nil => exact absurd rfl hx
    | cons y ys => exact fun h => by cases h

section Content

variable {gs : Nat → Setup} {size : Nat} {text : List Byte} {l : PcontLocals} {x : Sexp}

/-- The printer has written `text`. -/
structure Written (size : Nat) (text : List Byte) (l : PcontLocals) : Prop where
  length : l.cells.length = size
  loc : l.loc = text.length
  front : l.cells.take text.length = text

/-- A cell is written behind the text. -/
lemma written_put {t : List Byte} {cells : List Byte} {c : Byte}
    (hcells : cells = text ++ t ++ cells.drop (text ++ t).length) (hlen : cells.length = size)
    (hroom : (text ++ t).length < size) {k : Nat} {e : ErrCode} :
    Written size (text ++ t ++ [c])
      ⟨cells.set (text ++ t).length c, (text ++ t ++ [c]).length, k, e⟩ := by
  obtain ⟨d, rest, hrest⟩ : ∃ d rest, cells.drop (text ++ t).length = d :: rest := by
    cases hdrop : cells.drop (text ++ t).length with
    | nil =>
      have := List.drop_eq_nil_iff.mp hdrop
      omega
    | cons d rest => exact ⟨d, rest, rfl⟩
  refine ⟨by simpa using hlen, rfl, ?_⟩
  rw [hrest] at hcells
  have hset : cells.set (text ++ t).length c = text ++ t ++ [c] ++ rest := by
    rw [hcells, List.set_append_right _ _ (Nat.le_refl _), Nat.sub_self, List.set_cons_zero,
      List.append_assoc _ [c], List.singleton_append]
  dsimp only
  rw [hset, List.take_left]

/-- An element and its space. -/
lemma printElement_written (hl : Written size text l) (hg : (gs l.calls).Succeeds)
    (hx : Leaves TextAtom x) (hsealed : Sealed x)
    (hroom : (text ++ x.tree.render).length + 1 < size)
    (hint : (text ++ x.tree.render).length + 1 < 2 ^ 31) :
    ∃ l', (∀ᶠ n in atTop, l.printElement gs n x = .ok l') ∧
      Written size (text ++ x.tree.render ++ [space]) l' := by
  rw [List.length_append] at hroom hint
  have hloc := hl.loc
  have hfit : Fit size l := ⟨hl.length, by omega, by omega⟩
  have hdrop : (l.cells.drop l.loc).length = size - l.loc := by rw [List.length_drop, hl.length]
  obtain ⟨p, hp, hret⟩ := callPrintSexp_returned hfit hx fun _ => intact_of_sealed hsealed
  obtain ⟨n, p', hp', hfits, -⟩ := printSexp_renders hg (printable_of_sealed x hx hsealed) hsealed
    hdrop (by omega) [] l.errno
  obtain ⟨hretval, htake⟩ := hfits (by omega)
  have hsame : p.retval = p'.retval ∧ p.cells = p'.cells := by
    obtain ⟨m, hm, hge⟩ := (hp.and (eventually_ge_atTop n)).exists
    have hsize : sizeSub l.cells.length l.loc = size - l.loc := by
      rw [hl.length, sizeSub_of_le hfit.loc]
    have hmono := @printSexp_mono n m (gs l.calls) (l.cells.drop l.loc) (size - l.loc) [x] l.errno hge
    rw [hp'] at hmono
    rw [PcontLocals.callPrintSexp, hsize, hmono.resolve_left fun h => by cases h] at hm
    obtain ⟨hretval, hlocals⟩ := Prod.mk.inj (Except.ok.inj hm)
    refine ⟨hretval.symm, ?_⟩
    have hcells := congrArg PcontLocals.cells hlocals
    exact (List.append_cancel_left hcells).symm
  rw [hsame.1, hsame.2] at hp
  have hlen : p'.cells.length = size - l.loc := hsame.2 ▸ hret.length
  have htext : l.cells.take l.loc = text := by rw [hloc, hl.front]
  obtain ⟨cells, hcells⟩ : ∃ cells, cells = l.cells.take l.loc ++ p'.cells := ⟨_, rfl⟩
  have hcells' : cells =
      text ++ x.tree.render ++ cells.drop (text ++ x.tree.render).length := by
    have hsplit : p'.cells = x.tree.render ++ ([nul] ++ p'.cells.drop (x.tree.render.length + 1)) := by
      rw [← List.append_assoc, ← htake, List.take_append_drop]
    rw [hcells, htext, hsplit]
    simp
  have hsize : cells.length = size := by
    rw [hcells, htext, List.length_append, hlen]
    omega
  rw [toInt_of_lt (by omega)] at hretval
  have hsum : (text ++ x.tree.render).length = l.loc + x.tree.render.length := by
    rw [List.length_append, hloc]
  refine ⟨_, hp.mono fun n hn => ?_, written_put (c := space) (k := l.calls + 1) (e := p.errno)
    hcells' hsize (by omega)⟩
  rw [hretval, ← hcells] at hn
  have hput := @put_ok { l with cells := cells, calls := l.calls + 1, errno := p.errno }
    (l.loc + x.tree.render.length) space (by dsimp only; omega)
  rw [Int.natCast_add] at hput
  rw [PcontLocals.printElement, hn, except_bind]
  dsimp only
  rw [hput, except_bind, advance_ok (r := (text ++ x.tree.render ++ [space]).length)]
  · rw [hsum]
  · dsimp only
    rw [List.length_append, hsum]
    simp
    omega
  · rw [List.length_append, hsum, List.length_singleton]
    omega

/-- The paren of a list that is taken for an open one. -/
lemma printOpen_written (hl : Written size text l) (hroom : text.length < size)
    (hint : text.length + 1 < 2 ^ 31) :
    ∃ l', l.printOpen = .ok l' ∧ Written size (text ++ [lparen]) l' := by
  have hcells : l.cells = text ++ [] ++ l.cells.drop (text ++ []).length := by
    have hsplit := List.take_append_drop text.length l.cells
    rw [hl.front] at hsplit
    rw [List.append_nil, hsplit]
  have hwritten := written_put (c := lparen) (k := l.calls) (e := l.errno) hcells hl.length
    (by simpa using hroom)
  rw [List.append_nil] at hwritten
  refine ⟨_, ?_, hwritten⟩
  have hloc := hl.loc
  have hlen := hl.length
  rw [PcontLocals.printOpen, put_ok (by omega), except_bind,
    advance_ok (r := (text ++ [lparen]).length)]
  · rw [hloc]
  · simp [hloc]
  · simpa using hint

/-- The elements of a level. -/
lemma printLevel_written (hgs : ∀ k, (gs k).Succeeds) (xs : List Sexp) (hl : Written size text l)
    (hxs : LeavesAll TextAtom xs) (hsealed : SealedAll xs)
    (hroom : (text ++ shownLevel (forest xs)).length < size)
    (hint : (text ++ shownLevel (forest xs)).length < 2 ^ 31) :
    ∃ l', (∀ᶠ n in atTop, l.printLevel gs n xs = .ok l') ∧
      Written size (text ++ shownLevel (forest xs)) l' := by
  induction xs generalizing text l with
  | nil =>
    rw [forest, shownLevel, List.append_nil]
    exact ⟨l, .of_forall fun n => rfl, hl⟩
  | cons x xs ih =>
    by_cases hlist : x = .list []
    · subst hlist
      have hshown : shownLevel (forest (.list [] :: xs)) = [lparen] := rfl
      rw [hshown] at hroom hint ⊢
      rw [List.length_append, List.length_singleton] at hroom hint
      obtain ⟨l', hrun, hl'⟩ := printOpen_written hl (by omega) hint
      exact ⟨l', .of_forall fun n => hrun, hl'⟩
    · have hshown : text ++ shownLevel (forest (x :: xs)) =
          text ++ x.tree.render ++ [space] ++ shownLevel (forest xs) := by
        rw [forest, shownLevel_cons (tree_ne_open hlist)]
        simp
      rw [hshown] at hroom hint ⊢
      have hlen : (text ++ x.tree.render).length + 1 ≤
          (text ++ x.tree.render ++ [space] ++ shownLevel (forest xs)).length := by
        simp only [List.length_append, List.length_singleton]
        omega
      obtain ⟨l₁, hrun, hl₁⟩ := printElement_written hl (hgs _) hxs.1 hsealed.1 (by omega) (by omega)
      obtain ⟨l₂, hrest, hl₂⟩ := ih hl₁ hxs.2 hsealed.2 hroom hint
      refine ⟨l₂, ?_, hl₂⟩
      filter_upwards [hrun, hrest] with n hn hn'
      rw [PcontLocals.printLevel, hn, except_bind, hn']
      rintro rfl
      exact hlist rfl

/-- The levels, from the bottom of the stack. -/
lemma printLevels_written (hgs : ∀ k, (gs k).Succeeds) (levels : List (List Sexp))
    (hl : Written size text l) (hlevels : ∀ T ∈ levels, LeavesAll TextAtom T ∧ SealedAll T)
    (hroom : (text ++ (levels.map fun T => shownLevel (forest T)).flatten).length + 1 < size)
    (hint : (text ++ (levels.map fun T => shownLevel (forest T)).flatten).length < 2 ^ 31) :
    ∃ l', (∀ᶠ n in atTop, l.printLevels gs n levels = .ok l') ∧
      Written size (text ++ (levels.map fun T => shownLevel (forest T)).flatten) l' := by
  induction levels generalizing text l with
  | nil =>
    rw [List.map_nil, List.flatten_nil, List.append_nil]
    exact ⟨l, .of_forall fun n => rfl, hl⟩
  | cons T levels ih =>
    obtain ⟨hT, hrest⟩ := List.forall_mem_cons.mp hlevels
    rw [List.map_cons, List.flatten_cons, ← List.append_assoc] at hroom hint ⊢
    have hlen : (text ++ shownLevel (forest T)).length ≤
        (text ++ shownLevel (forest T) ++
          (levels.map fun T => shownLevel (forest T)).flatten).length := by
      rw [@List.length_append _ (text ++ shownLevel (forest T))]
      exact Nat.le_add_right _ _
    obtain ⟨l₁, hrun, hl₁⟩ := printLevel_written hgs T hl hT.1 hT.2 (by omega) (by omega)
    obtain ⟨l₂, hrun', hl₂⟩ := ih hl₁ hrest hroom hint
    have hguard : l.loc < sizeSub l.cells.length 1 := by
      have hfront : text.length ≤ (text ++ shownLevel (forest T)).length := by simp
      rw [hl.length, sizeSub_of_le (by omega), hl.loc]
      omega
    refine ⟨l₂, ?_, hl₂⟩
    filter_upwards [hrun, hrun'] with n hn hn'
    rw [PcontLocals.printLevels, if_pos hguard, hn, except_bind, hn']

/-- Between tokens only the terminator is written. -/
lemma printToken_between (hl : Fit size l) (hroom : l.loc + 1 < size) (val : List Byte) :
    l.printToken val 0 = .ok ⟨l.cells.set l.loc nul, l.loc, l.errno⟩ := by
  have hlen := hl.length
  have hzero : l.tokenRoom 0 = 0 := by
    rw [tokenRoom_eq hl (by omega), tokenLength, if_pos (by omega)]
  have hcopy : l.copyToken 0 val = .ok l := by
    rw [PcontLocals.copyToken, strncpy, if_pos (.inl (Nat.zero_le _))]
    dsimp only
    rw [if_pos (by omega), List.take_zero, Nat.zero_sub, List.replicate_zero, List.append_nil,
      List.append_nil, Nat.add_zero, List.take_append_drop]
  rw [PcontLocals.printToken, hzero, hcopy, except_bind, Int.natCast_zero, Int.add_zero,
    put_ok (by omega), except_bind]
  rfl

lemma printToken_written (hl : Written size text l) (hnul : nul ∉ text)
    (hroom : text.length + 1 < size) (hint : text.length < 2 ^ 31) (val : List Byte) :
    ∃ p, l.printToken val 0 = .ok p ∧ cstr p.cells = text := by
  have hloc := hl.loc
  have hlen := hl.length
  refine ⟨_, printToken_between ⟨hlen, by omega, by omega⟩ (by omega) val, ?_⟩
  have hcells : l.cells = text ++ [] ++ l.cells.drop (text ++ []).length := by
    have hsplit := List.take_append_drop text.length l.cells
    rw [hl.front] at hsplit
    rw [List.append_nil, hsplit]
  have hwritten := written_put (c := nul) (k := 0) (e := .ok) hcells hlen
    (by simpa using Nat.lt_of_succ_lt hroom)
  rw [List.append_nil] at hwritten
  have hfront := hwritten.front
  have hsplit := List.take_append_drop (text ++ [nul]).length (l.cells.set text.length nul)
  dsimp only at hfront
  rw [hfront, List.append_assoc, List.singleton_append] at hsplit
  dsimp only
  rw [hloc, ← hsplit]
  nth_rewrite 1 [← cstr_of_noNul hnul]
  rw [cstr_append_nul, cstr_of_noNul hnul]

/-- The buffer holds the text that is to be shown. -/
lemma printPcont_written {pc : Pcont} {buf : List Byte} (hgs : ∀ k, (gs k).Succeeds)
    (hlevels : ∀ T ∈ pc.stack.levels, LeavesAll TextAtom T ∧ SealedAll T) (hused : pc.valUsed = 0)
    (hnul : nul ∉ shownText pc) (hroom : (shownText pc).length + 1 < buf.length)
    (hint : (shownText pc).length < 2 ^ 31) (errno : ErrCode) :
    ∃ p, (∀ᶠ n in atTop, printPcont gs n pc buf errno = .ok p) ∧ cstr p.cells = shownText pc := by
  have hstart : Written buf.length [] ⟨buf, 0, 0, errno⟩ := ⟨rfl, rfl, rfl⟩
  obtain ⟨l', hrun, hl'⟩ := printLevels_written hgs pc.stack.levels.reverse hstart
    (fun T hT => hlevels T (List.mem_reverse.mp hT)) hroom hint
  obtain ⟨p, hp, htext⟩ := printToken_written hl' hnul hroom hint pc.val
  refine ⟨p, ?_, htext⟩
  filter_upwards [hrun] with n hn
  rw [printPcont, hn, except_bind, hused, hp]

end Content

section Wrapping

variable {gs : Nat → Setup} {size : Nat}

lemma toInt_wraps (m : Nat) : ∃ j : Nat, (m : Int) = toInt m + 2 ^ 32 * j := by
  obtain ⟨c, hc⟩ : ((2 ^ 32 : Nat) : Int) ∣ m - Int.bmod m (2 ^ 32) := Int.dvd_self_sub_bmod
  have hle := toInt_le m
  unfold toInt at hle ⊢
  refine ⟨c.toNat, ?_⟩
  omega

/-- A level ends where its text would, or a multiple of `2 ^ 32` in front of that. -/
lemma laysLevel_wraps (hgs : ∀ k, (gs k).Succeeds) (xs : List Sexp) (hxs : SealedAll xs)
    {k p k' q : Nat} (h : LaysLevelIn gs size xs k p k' q)
    (hroom : p + (shownLevel (forest xs)).length ≤ size) :
    ∃ j, q + 2 ^ 32 * j = p + (shownLevel (forest xs)).length := by
  induction xs generalizing k p with
  | nil =>
    cases h with
    | done => exact ⟨0, rfl⟩
  | cons x xs ih =>
    cases h with
    | opened hroom hint => exact ⟨0, rfl⟩
    | @element _ _ _ _ r _ _ hlist hplaces hrest =>
      have hshown : (shownLevel (forest (x :: xs))).length =
          x.tree.render.length + 1 + (shownLevel (forest xs)).length := by
        rw [forest, shownLevel_cons (tree_ne_open hlist)]
        simp
        omega
      rw [hshown] at hroom ⊢
      have hgranted := shows_of_granted (hgs k) hxs.1
      cases hplaces with
      | @placed m _ hintact hshows hfits hend hpos hint =>
        obtain rfl := hshows.unique hgranted
        obtain ⟨i, hi⟩ := toInt_wraps x.tree.render.length
        obtain ⟨j, hj⟩ := ih hxs.2 hrest (by omega)
        exact ⟨i + j, by omega⟩
      | passed hintact hfull hpos => exact absurd ⟨_, hgranted, by omega⟩ hfull

/-- The levels end where the text would, or a multiple of `2 ^ 32` in front of that. -/
lemma lays_wraps (hgs : ∀ k, (gs k).Succeeds) (levels : List (List Sexp))
    (hlevels : ∀ T ∈ levels, SealedAll T) {k p q : Nat} (h : LaysIn gs size levels k p q)
    (hroom : p + ((levels.map fun T => shownLevel (forest T)).flatten).length + 1 < size) :
    ∃ j, q + 2 ^ 32 * j = p + ((levels.map fun T => shownLevel (forest T)).flatten).length := by
  induction levels generalizing k p with
  | nil =>
    cases h with
    | done => exact ⟨0, rfl⟩
  | cons T levels ih =>
    obtain ⟨hT, hrest⟩ := List.forall_mem_cons.mp hlevels
    rw [List.map_cons, List.flatten_cons, List.length_append] at hroom ⊢
    cases h with
    | full hfull => omega
    | level hroom' hlevel habove =>
      obtain ⟨i, hi⟩ := laysLevel_wraps hgs T hT hlevel (by omega)
      obtain ⟨j, hj⟩ := ih hrest habove (by omega)
      exact ⟨i + j, by omega⟩

/-- Whatever the text, the string in the buffer ends where the levels end. -/
lemma printPcont_ends {pc : Pcont} {buf : List Byte} {errno : ErrCode} {p : PcontPrinted}
    (hlevels : ∀ T ∈ pc.stack.levels, LeavesAll TextAtom T ∧ SealedAll T)
    (hgs : ∀ k, (gs k).Succeeds) (hused : pc.valUsed = 0)
    (hroom : (shownText pc).length + 1 < buf.length)
    (hp : ∀ᶠ n in atTop, printPcont gs n pc buf errno = .ok p) :
    ∃ q j, q + 2 ^ 32 * j = (shownText pc).length ∧ q < 2 ^ 31 ∧ (cstr p.cells).length ≤ q := by
  have hrev : ∀ T ∈ pc.stack.levels.reverse, LeavesAll TextAtom T ∧ SealedAll T :=
    fun T hT => hlevels T (List.mem_reverse.mp hT)
  have hstart : Fit buf.length ⟨buf, 0, 0, errno⟩ := ⟨rfl, Nat.zero_le _, Nat.two_pow_pos 31⟩
  rcases @printLevels_outcome gs buf.length _ pc.stack.levels.reverse hstart
    (fun T hT => (hrev T hT).1) (by omega) with ⟨l', hlays, hl', hrun⟩ | ⟨-, e, hrun⟩
  · have htext : (0 + (shownText pc).length) + 1 < buf.length := by rwa [Nat.zero_add]
    obtain ⟨j, hj⟩ := lays_wraps hgs _ (fun T hT => (hrev T hT).2) hlays htext
    have hlen : l'.loc + 2 ^ 32 * j = (shownText pc).length := hj.trans (Nat.zero_add _)
    have hloc : l'.loc + 1 < buf.length := by omega
    refine ⟨l'.loc, j, hlen, hl'.int, ?_⟩
    obtain ⟨n, hn, hn'⟩ := (hp.and hrun).exists
    rw [printPcont, hn', except_bind, hused, printToken_between hl' hloc] at hn
    cases hn
    exact Cells.length_takeWhile_set_le (by rw [hl'.length]; omega)
  · obtain ⟨n, hn, hn'⟩ := (hp.and hrun).exists
    rw [printPcont, hn'] at hn
    cases hn

end Wrapping

end Sfsexp.Proofs
