import Sfsexp.Proofs.Compositional
import Sfsexp.Spec.Quoting

/-!
# A quoted expression is kept as it is

Behind an apostrophe a list is copied up to the paren that closes it. The scanner that looks for
that paren knows double quotes and backslashes, but no comments and no pairs of backslashes.
-/

namespace Sfsexp.Proofs

open Sfsexp Spec

section Enclosed

variable {text w : List Byte} {m : Marks}

/-- The scanner of a quoted list ends with the whole text exactly when the parens close there. -/
lemma listEnd_marks (hd : 0 < m.depth) :
    listEnd m.inString m.esc m.depth text w = some (text ++ w, []) ↔
      (w.foldl Marks.push m).depth = 0 ∧
        ∀ p, p <+: w → p ≠ w → 0 < (p.foldl Marks.push m).depth := by
  induction w generalizing m text with
  | nil =>
    simp only [listEnd, List.foldl_nil]
    constructor
    · intro h
      cases h
    · intro h
      omega
  | cons c w ih =>
    have hprefix : (∀ p, p <+: c :: w → p ≠ c :: w → 0 < (p.foldl Marks.push m).depth) ↔
        ∀ p, p <+: w → p ≠ w → 0 < (p.foldl Marks.push (m.push c)).depth := by
      constructor
      · intro h p hp hne
        exact h (c :: p) (List.cons_prefix_cons.mpr ⟨rfl, hp⟩) (by simpa using hne)
      · intro h p hp hne
        cases p with
        | nil => exact hd
        | cons b p =>
          obtain ⟨rfl, hp'⟩ := List.cons_prefix_cons.mp hp
          exact h p hp' (by simpa using hne)
    rw [listEnd, hprefix, List.foldl_cons]
    split_ifs with hend
    · obtain ⟨hs, he, rfl, hone⟩ := hend
      have hzero : (m.push rparen).depth = 0 := by
        simp [Marks.push, parensAfter, hs, he, hone, show rparen ≠ lparen by decide]
      constructor
      · intro h
        simp only [Option.some.injEq, Prod.mk.injEq] at h
        rw [h.2]
        refine ⟨hzero, fun p hp hne => absurd (List.prefix_nil.mp hp) hne⟩
      · rintro ⟨-, hall⟩
        cases w with
        | nil => rfl
        | cons b w =>
          have hpos := hall [] List.nil_prefix (List.cons_ne_nil b w).symm
          rw [List.foldl_nil, hzero] at hpos
          omega
    · have hpos : 0 < (m.push c).depth := by
        unfold Marks.push parensAfter
        dsimp only
        split_ifs with h1 h2 h3
        · exact hd
        · omega
        · have hne : m.depth - 1 ≠ 0 := fun hz => hend ⟨by simp_all, by simp_all, h3, hz⟩
          omega
        · exact hd
      have hrest := @ih (text ++ [c]) (m.push c) hpos
      rw [List.append_assoc, List.singleton_append] at hrest
      exact hrest

lemma listEnd_enclosed (w : List Byte) :
    listEnd false false 0 [] (lparen :: w) = some (lparen :: w, []) ↔ Enclosed (lparen :: w) := by
  have hmarks := @listEnd_marks [lparen] w ⟨false, false, 1⟩ Int.one_pos
  have hstep : listEnd false false 0 [] (lparen :: w) = listEnd false false 1 [lparen] w := rfl
  rw [hstep]
  refine hmarks.trans (and_congr Iff.rfl ⟨fun h p hp hnil hne => ?_, fun h p hp hne => ?_⟩)
  · obtain ⟨b, p, rfl⟩ := List.exists_cons_of_ne_nil hnil
    obtain ⟨rfl, hp'⟩ := List.cons_prefix_cons.mp hp
    exact h p hp' (by simpa using hne)
  · exact h (lparen :: p) (List.cons_prefix_cons.mpr ⟨rfl, hp⟩) (List.cons_ne_nil _ _)
      (by simpa using hne)

end Enclosed

section Plain

variable {u v w rest text : List Byte} {e : Bool} {c : Byte}

/-- A text that the scanner of a quoted list passes over. -/
def Passed (u : List Byte) : Prop :=
  ∀ (d : Int) (text t : List Byte), 0 < d →
    listEnd false false d text (u ++ t) = listEnd false false d (text ++ u) t

lemma passed_nil : Passed [] := by
  intro d text t _
  rw [List.nil_append, List.append_nil]

lemma Passed.append (hu : Passed u) (hv : Passed v) : Passed (u ++ v) := by
  intro d text t hd
  rw [List.append_assoc, hu d text (v ++ t) hd, hv d (text ++ u) t hd, List.append_assoc]

lemma passed_byte (hl : c ≠ lparen) (hr : c ≠ rparen) (hq : c ≠ dquote) (hb : c ≠ backslash) :
    Passed [c] := by
  intro d text t hd
  rw [List.singleton_append, listEnd, if_neg fun h => hr h.2.2.1]
  have hquote : (c == dquote) = false := by simpa using hq
  have hslash : (c == backslash) = false := by simpa using hb
  simp [hquote, hslash, parensAfter, hl, hr]

lemma passed_bytes (h : ∀ c ∈ u, c ≠ lparen ∧ c ≠ rparen ∧ c ≠ dquote ∧ c ≠ backslash) :
    Passed u := by
  induction u with
  | nil => exact passed_nil
  | cons c u ih =>
    obtain ⟨⟨hl, hr, hq, hb⟩, hrest⟩ := List.forall_mem_cons.mp h
    exact (passed_byte hl hr hq hb).append (ih hrest)

lemma parens_close (d : Int) : parensAfter false false d rparen = d - 1 := by
  simp [parensAfter, show rparen ≠ lparen by decide]

/-- A list is passed over if its elements are. -/
lemma Passed.list (hu : Passed u) : Passed (lparen :: u ++ [rparen]) := by
  intro d text t hd
  have hopen : listEnd false false d text (lparen :: (u ++ rparen :: t)) =
      listEnd false false (d + 1) (text ++ [lparen]) (u ++ rparen :: t) := rfl
  have hclose : listEnd false false (d + 1) (text ++ [lparen] ++ u) (rparen :: t) =
      listEnd false false d (text ++ [lparen] ++ u ++ [rparen]) t := by
    rw [listEnd, if_neg (by omega)]
    rw [parens_close, Int.add_sub_cancel]
    rfl
  rw [List.append_assoc, List.cons_append, List.singleton_append, hopen,
    hu (d + 1) _ _ (by omega), hclose]
  simp

lemma listEnd_string (hq : dquote ∉ u) (hb : backslash ∉ u) (d : Int) (t : List Byte) :
    listEnd true false d text (u ++ t) = listEnd true false d (text ++ u) t := by
  induction u generalizing text with
  | nil => rw [List.nil_append, List.append_nil]
  | cons c u ih =>
    obtain ⟨hcq, hq⟩ := not_or.mp (mt List.mem_cons.mpr hq)
    obtain ⟨hcb, hb⟩ := not_or.mp (mt List.mem_cons.mpr hb)
    have hquote : (c == dquote) = false := by simpa using Ne.symm hcq
    have hslash : (c == backslash) = false := by simpa using Ne.symm hcb
    rw [List.cons_append, listEnd, if_neg (by simp), hquote, hslash]
    refine (ih hq hb).trans ?_
    rw [List.append_assoc, List.singleton_append]

lemma passed_string (hq : dquote ∉ u) (hb : backslash ∉ u) : Passed (dquote :: u ++ [dquote]) := by
  intro d text t hd
  have hopen : listEnd false false d text (dquote :: (u ++ dquote :: t)) =
      listEnd true false d (text ++ [dquote]) (u ++ dquote :: t) := rfl
  have hclose : listEnd true false d (text ++ [dquote] ++ u) (dquote :: t) =
      listEnd false false d (text ++ [dquote] ++ u ++ [dquote]) t := rfl
  rw [List.append_assoc, List.cons_append, List.singleton_append, hopen,
    listEnd_string hq hb, hclose]
  simp

/-- Inside more parens the scanner goes on behind a quoted list. -/
lemma listEnd_inner {s f : Bool} {k : Int} {r : List Byte} (hk : 0 < k)
    (h : listEnd s f k text w = some (r, rest)) {d : Int} (hd : 0 < d) (out : List Byte) :
    ∃ u, w = u ++ rest ∧ ∀ t, listEnd s f (d + k) out (u ++ t) = listEnd false false d (out ++ u) t := by
  induction w generalizing s f k text out with
  | nil => cases h
  | cons c w ih =>
    rw [listEnd] at h
    split_ifs at h with hend
    · cases h
      obtain ⟨rfl, rfl, rfl, hone⟩ := hend
      refine ⟨[rparen], rfl, fun t => ?_⟩
      rw [List.singleton_append, listEnd, if_neg (by omega)]
      have hdepth : d + k - 1 = d := by omega
      rw [parens_close, hdepth]
      rfl
    · have hshift : parensAfter s f (d + k) c = d + parensAfter s f k c := by
        unfold parensAfter
        split_ifs <;> omega
      have hpos : 0 < parensAfter s f k c := by
        unfold parensAfter
        split_ifs with h1 h2 h3
        · exact hk
        · omega
        · have hne : k - 1 ≠ 0 := fun hz => hend ⟨by simp_all, by simp_all, h3, hz⟩
          omega
        · exact hk
      obtain ⟨u, rfl, hu⟩ := ih hpos h (out ++ [c])
      refine ⟨c :: u, rfl, fun t => ?_⟩
      have hout : ¬ (s = false ∧ f = false ∧ c = rparen ∧ d + k - 1 = 0) := by omega
      rw [List.cons_append, listEnd, if_neg hout, hshift, hu]
      simp

lemma bareEnd_plain (hb : backslash ∉ w) {r : List Byte}
    (h : bareEnd false text w = some (r, e, rest)) :
    e = false ∧ ∃ u, w = u ++ rest ∧ ∀ c ∈ u, isAtomByte c = true := by
  induction w generalizing text with
  | nil => cases h
  | cons c w ih =>
    obtain ⟨hc, hb⟩ := not_or.mp (mt List.mem_cons.mpr hb)
    have hslash : (c == backslash) = false := by simpa using Ne.symm hc
    rw [bareEnd, Bool.false_and, if_neg Bool.false_ne_true, hslash] at h
    split_ifs at h with ha
    · obtain ⟨he, u, rfl, hu⟩ := ih hb h
      exact ⟨he, c :: u, rfl, List.forall_mem_cons.mpr ⟨ha, hu⟩⟩
    · cases h
      exact ⟨rfl, [], rfl, by simp⟩

lemma quotedEnd_plain (hb : backslash ∉ w) {r : List Byte}
    (h : quotedEnd false text w = some (r, rest)) : ∃ u, w = u ++ dquote :: rest ∧ dquote ∉ u := by
  induction w generalizing text with
  | nil => cases h
  | cons c w ih =>
    obtain ⟨hc, hb⟩ := not_or.mp (mt List.mem_cons.mpr hb)
    have hslash : (c == backslash) = false := by simpa using Ne.symm hc
    rw [quotedEnd, Bool.false_and, if_neg Bool.false_ne_true, hslash] at h
    split_ifs at h with hd
    · cases h
      exact ⟨[], by rw [hd]; rfl, by simp⟩
    · obtain ⟨u, rfl, hu⟩ := ih hb h
      exact ⟨c :: u, rfl, by simp [hu, Ne.symm hd]⟩

lemma passed_atoms (hb : backslash ∉ u) (h : ∀ c ∈ u, isAtomByte c = true) : Passed u := by
  apply passed_bytes
  intro c hc
  obtain ⟨-, hl, hr, hq, -⟩ := atomByte_plain (h c hc)
  exact ⟨hl, hr, hq, fun hslash => hb (hslash ▸ hc)⟩

/-- A gap without comments is white space. -/
lemma passed_gap (hs : semicolon ∉ w) (h : skipGap w = v) : ∃ u, w = u ++ v ∧ Passed u := by
  induction w with
  | nil =>
    cases h
    exact ⟨[], rfl, passed_nil⟩
  | cons c w ih =>
    obtain ⟨hc, hs⟩ := not_or.mp (mt List.mem_cons.mpr hs)
    rw [skipGap, if_neg (Ne.symm hc)] at h
    split_ifs at h with hwhite
    · obtain ⟨u, rfl, hu⟩ := ih hs h
      have hcases : c = newline ∨ c = space ∨ c = tab ∨ c = carriage := by
        simpa [isWhite, or_assoc] using hwhite
      have hone : Passed [c] := by
        rcases hcases with rfl | rfl | rfl | rfl <;>
          exact passed_byte (by decide) (by decide) (by decide) (by decide)
      exact ⟨c :: u, rfl, hone.append hu⟩
    · cases h
      exact ⟨[], rfl, passed_nil⟩

lemma nextTick_plain {x : Tree} (hb : backslash ∉ w) (h : nextTick false w = some (x, e, rest)) :
    e = false ∧ ∃ u, w = u ++ rest ∧ Passed u := by
  obtain ⟨c, w, rfl⟩ := List.exists_cons_of_ne_nil (tick_ne_nil h)
  obtain ⟨-, hbw⟩ := not_or.mp (mt List.mem_cons.mpr hb)
  unfold nextTick at h
  dsimp only at h
  split_ifs at h with hd hl
  · subst hd
    obtain ⟨⟨r, rest'⟩, hread, heq⟩ := Option.map_eq_some_iff.mp h
    cases heq
    obtain ⟨u, rfl, hu⟩ := quotedEnd_plain hbw hread
    have hbu : backslash ∉ u := fun hin => hbw (List.mem_append_left _ hin)
    exact ⟨rfl, dquote :: u ++ [dquote], by simp, passed_string hu hbu⟩
  · subst hl
    obtain ⟨⟨r, rest'⟩, hread, heq⟩ := Option.map_eq_some_iff.mp h
    cases heq
    have hopen : listEnd false false 1 [lparen] w = some (r, _) := hread
    obtain ⟨u, hu, -⟩ := listEnd_inner Int.one_pos hopen Int.one_pos []
    refine ⟨rfl, lparen :: u, by rw [hu]; rfl, fun d out t hd => ?_⟩
    obtain ⟨u', hu', hpass⟩ := listEnd_inner Int.one_pos hopen hd (out ++ [lparen])
    have hsame : u = u' := List.append_cancel_right (hu.symm.trans hu')
    subst hsame
    have hstep : listEnd false false d out (lparen :: (u ++ t)) =
        listEnd false false (d + 1) (out ++ [lparen]) (u ++ t) := rfl
    rw [List.cons_append, hstep, hpass]
    simp
  · obtain ⟨⟨r, e', rest'⟩, hread, heq⟩ := Option.map_eq_some_iff.mp h
    cases heq
    obtain ⟨he, u, hu, hatom⟩ := bareEnd_plain hb hread
    refine ⟨he, u, hu, passed_atoms (fun hin => hb ?_) hatom⟩
    rw [hu]
    exact List.mem_append_left _ hin

lemma nextAtom_plain {x : Tree} (hl : c ≠ lparen) (hr : c ≠ rparen) (hb : backslash ∉ c :: w)
    (h : nextAtom false c w = some (x, e, rest)) :
    e = false ∧ ∃ u, c :: w = u ++ rest ∧ Passed u := by
  obtain ⟨hc, hbw⟩ := not_or.mp (mt List.mem_cons.mpr hb)
  rcases nextAtom_cases h with ⟨rfl, r, hread, -, rfl⟩ | ⟨rfl, htick, -⟩ | ⟨hd, -, r, hread, -⟩
  · obtain ⟨u, rfl, hu⟩ := quotedEnd_plain hbw hread
    have hbu : backslash ∉ u := fun hin => hbw (List.mem_append_left _ hin)
    exact ⟨rfl, dquote :: u ++ [dquote], by simp, passed_string hu hbu⟩
  · obtain ⟨he, u, rfl, hu⟩ := nextTick_plain hbw htick
    have hone : Passed [tick] := passed_byte (by decide) (by decide) (by decide) (by decide)
    exact ⟨he, tick :: u, rfl, hone.append hu⟩
  · have hslash : (c == backslash) = false := by simpa using Ne.symm hc
    rw [hslash] at hread
    obtain ⟨he, u, rfl, hu⟩ := bareEnd_plain hbw hread
    have hbu : backslash ∉ u := fun hin => hbw (List.mem_append_left _ hin)
    exact ⟨he, c :: u, rfl, (passed_byte hl hr hd (Ne.symm hc)).append (passed_atoms hbu hu)⟩

mutual
/-- Without comments and backslashes the scanner passes over an element. -/
lemma element_plain {esc e : Bool} {w rest : List Byte} {x : Tree} (h : Element esc w x e rest)
    (hesc : esc = false) (hb : backslash ∉ w) (hs : semicolon ∉ w) :
    e = false ∧ ∃ u, w = u ++ rest ∧ Passed u := by
  match h with
  | .atom hgap hl hr hatom =>
    subst hesc
    obtain ⟨u, rfl, hu⟩ := passed_gap hs hgap
    obtain ⟨he, v, hv, hpass⟩ := nextAtom_plain hl hr
      (fun hin => hb (List.mem_append_right u hin)) hatom
    rw [hv]
    exact ⟨he, u ++ v, (List.append_assoc u v rest).symm, hu.append hpass⟩
  | .list hgap hall =>
    obtain ⟨u, rfl, hu⟩ := passed_gap hs hgap
    obtain ⟨he, v, rfl, hpass⟩ := elements_plain hall hesc
      (fun hin => hb (List.mem_append_right u (List.mem_cons_of_mem _ hin)))
      (fun hin => hs (List.mem_append_right u (List.mem_cons_of_mem _ hin)))
    exact ⟨he, u ++ (lparen :: v ++ [rparen]), by simp, hu.append hpass.list⟩

lemma elements_plain {esc e : Bool} {w rest : List Byte} {T : List Tree}
    (h : Elements esc w T e rest) (hesc : esc = false) (hb : backslash ∉ w) (hs : semicolon ∉ w) :
    e = false ∧ ∃ u, w = u ++ rparen :: rest ∧ Passed u := by
  match h with
  | .nil hgap =>
    obtain ⟨u, rfl, hu⟩ := passed_gap hs hgap
    exact ⟨hesc, u, rfl, hu⟩
  | .cons hone hall =>
    obtain ⟨he, u, rfl, hu⟩ := element_plain hone hesc hb hs
    obtain ⟨he', v, rfl, hv⟩ := elements_plain hall he
      (fun hin => hb (List.mem_append_right u hin)) (fun hin => hs (List.mem_append_right u hin))
    exact ⟨he', u ++ v, (List.append_assoc _ _ _).symm, hu.append hv⟩
end

end Plain

section Last

variable {env : Env} {chunk tail : List Byte} {l : Locals} {q : Outcome} {R : Return} {x : Sexp}

/-- The byte that the reader completes the tree with is the last one of the chunk. -/
def EndsChunk (chunk : List Byte) (x : Sexp) : Prop :=
  ∃ (r : Reader) (u : List Byte) (c : Byte),
    chunk = u ++ [c] ∧ r.feed c = ([x.tree], .ok Reader.start)

lemma endsChunk_of_yields {r : Reader} (ht : l.t < chunk.length)
    (hy : Yields (chunk.get ⟨l.t, ht⟩) l r R) (htree : R.cc.lastSexp = [x])
    (hend : R.cursor = chunk.length) : EndsChunk chunk x := by
  cases hy with
  | take y hr hfeed =>
    rw [hr.tree] at htree
    cases htree
    have hlast : l.t + 1 = chunk.length := hr.cursor.symm.trans hend
    refine ⟨r, chunk.take l.t, chunk.get ⟨l.t, ht⟩, ?_, hfeed⟩
    have hall : chunk.take (l.t + 1) = chunk := List.take_of_length_le (by omega)
    rw [List.take_succ_eq_append_getElem ht] at hall
    exact hall.symm
  | defer y hr hfeed =>
    have hbehind := hr.cursor.symm.trans hend
    omega
  | bad hr hfeed =>
    rw [hr.tree] at htree
    cases htree

lemma endsChunk_of_reads {r : Reader} {y : Exec Locals} (ht : l.t < chunk.length)
    (h : Reads (chunk.get ⟨l.t, ht⟩) l r y) (hexit : y = .error (.ret R))
    (htree : R.cc.lastSexp = [x]) (hend : R.cursor = chunk.length) : EndsChunk chunk x := by
  subst hexit
  exact endsChunk_of_yields ht h htree hend

lemma endsChunk_of_pair {L : List (List Sexp)} (hb : Holding env chunk tail) (hi : GoodHead l L)
    (ht : l.t < chunk.length) (hs : l.state = .s5)
    (hp : (l.esc && isEscapable (chunk.get ⟨l.t, ht⟩)) = true)
    (hq : (scan (view l.toRegs L) (chunk.drop l.t)).1 ≠ [])
    (hexit : state5 env (chunk.get ⟨l.t, ht⟩) l = .error (.ret R))
    (htree : R.cc.lastSexp = [x]) (hend : R.cursor = chunk.length) : EndsChunk chunk x := by
  rw [Holding.drop_cons ht, scan_cons] at hq
  rw [state5, if_pos hp] at hexit
  rcases escaped_pair (hb.ne_nul ht) hi hs hp with ⟨hrun, -⟩ | ⟨l₁, hrun, hi₁, ht₁, hs₁, he₁, hfeed⟩
  · rw [hrun] at hexit
    cases hexit
  · rw [hfeed, scanOn_silent] at hq
    have hlast : l.t + 1 ≠ chunk.length := by
      intro hlast
      rw [hlast, List.drop_length, scan_nil] at hq
      exact hq rfl
    have hlt : l₁.t < chunk.length := by omega
    rw [hrun, ok_bind, Env.read, hb.get_lt hlt, ok_bind] at hexit
    have hreads := reads_state5Rest hb.alloc (hb.ne_nul hlt) hi₁ hs₁ (by simp [he₁])
    exact endsChunk_of_reads hlt hreads hexit htree hend

lemma endsChunk_of_exit (hb : Holding env chunk tail) (ha : Ahead env chunk tail q l)
    (hq : q.1 ≠ []) (hexit : cparseHead env l = .error (.ret R)) (htree : R.cc.lastSexp = [x])
    (hend : R.cursor = chunk.length) : EndsChunk chunk x := by
  rcases ha with ⟨L, hi, hle, h3, hscan⟩ | ⟨r, hsilent, -⟩
  · have hread : l.t ≠ chunk.length := by
      intro ht
      rw [hscan, ht, List.drop_length, scan_nil] at hq
      exact hq rfl
    have ht : l.t < chunk.length := Nat.lt_of_le_of_ne hle hread
    have hne := hb.ne_nul ht
    have hget := hb.get_lt ht
    have hgo : ¬ (chunk.get ⟨l.t, ht⟩ = nul ∨ l.t = env.len) := by
      rintro (h | h)
      · exact hne h
      · have hlen := hb.len
        omega
    rw [cparseHead, if_neg hi.good.textual.2.2.2, Env.read, hget, ok_bind, if_neg hgo] at hexit
    by_cases hpair : l.state = .s5 ∧ (l.esc && isEscapable (chunk.get ⟨l.t, ht⟩)) = true
    · rw [switch, hpair.1] at hexit
      rw [hscan] at hq
      exact endsChunk_of_pair hb hi ht hpair.1 hpair.2 hq hexit htree hend
    · have h5 : l.state = .s5 → (l.esc && isEscapable (chunk.get ⟨l.t, ht⟩)) = false := by
        intro hs
        rw [← Bool.not_eq_true]
        exact fun h => hpair ⟨hs, h⟩
      have hparen : l.state = .s3 → chunk.get ⟨l.t, ht⟩ = rparen := by
        intro hs
        have hbyte := (h3 hs).2
        rw [hget] at hbyte
        exact Option.some.inj hbyte
      exact endsChunk_of_reads ht (reads_switch hb.alloc hne hi hparen h5) hexit htree hend
  · rw [hsilent] at hq
    exact absurd rfl hq

/-- A call that consumes its whole text completes the tree with the last byte. -/
lemma endsChunk_of_call {g : Setup} {w : List Byte} {e : ErrCode} (hg : g.Succeeds) (hnul : nul ∉ w)
    (hcall : cparseSexp g (some (w ++ [nul])) w.length (some (Pcont.new g)) e = .ret R)
    (htree : R.cc.lastSexp = [x]) (hend : R.cursor = w.length) : EndsChunk w x := by
  have hb : Holding (Call.env ⟨g, w ++ [nul], w.length, e⟩) w [nul] :=
    ⟨hg, rfl, Nat.le_refl _, .inl rfl, List.cons_ne_nil nul [], hnul⟩
  obtain ⟨l, s, hrun, hahead, hexit⟩ := run_ends_ahead (k := ⟨g, w ++ [nul], w.length, e⟩) 0 hb
    (good_new g) (by simp [Pcont.new]) (Nat.zero_le _)
  rw [view_new] at hahead
  have hret : Result.ofStop (some s) = .ret R := by
    rw [← hcall, ← hrun]
    rfl
  cases s with
  | fault f => cases hret
  | ret R' =>
    cases hret
    refine endsChunk_of_exit hb hahead ?_ hexit htree hend
    obtain ⟨-, -, hscan⟩ := scan_of_call hg hnul hcall htree
    have hsame : w.drop ((Pcont.new g).lastPos.getD 0) = w := rfl
    rw [hsame, hscan]
    exact List.cons_ne_nil _ _

end Last

section Parens

variable {r : Reader} {c : Byte} {T : List Tree} {u : List Byte}

lemma finishAtom_atom {aty : AtomT} {out : List Tree} {r' : Except ReadErr Reader}
    (h : r.finishAtom aty = (.list T :: out, r')) : False := by
  unfold Reader.finishAtom at h
  split at h <;> cases h

lemma feedQuotedList_atom {out : List Tree} {r' : Except ReadErr Reader}
    (h : r.feedQuotedList c = (.list T :: out, r')) : False := by
  unfold Reader.feedQuotedList at h
  split_ifs at h
  · cases h
  · cases h
  · exact finishAtom_atom h
  · cases h
  · cases h
  · cases h

lemma feedGap_list {r' : Except ReadErr Reader} (h : r.feedGap c = ([.list T], r')) : c = rparen := by
  by_contra hr
  unfold Reader.feedGap at h
  rw [if_neg hr] at h
  split_ifs at h <;> cases h

lemma feedBare_list {r' : Except ReadErr Reader} (h : r.feedBare c = ([.list T], r')) :
    c = rparen := by
  unfold Reader.feedBare at h
  split_ifs at h
  · unfold Reader.escape at h
    split at h <;> cases h
  · cases h
  all_goals
    unfold Reader.finishAtom at h
    cases hlevels : r.levels with
    | nil =>
      rw [hlevels] at h
      cases h
    | cons U Ls =>
      rw [hlevels] at h
      exact feedGap_list h

/-- A list ends with its paren. -/
lemma feed_list {r' : Except ReadErr Reader} (h : r.feed c = ([.list T], r')) : c = rparen := by
  unfold Reader.feed Reader.feedLex at h
  dsimp only at h
  split at h
  · exact feedGap_list h
  · cases h
  · exact feedBare_list h
  · unfold Reader.feedQuoted at h
    split_ifs at h
    · unfold Reader.escape at h
      split at h <;> cases h
    · exact (finishAtom_atom h).elim
    · exact (finishAtom_atom h).elim
    · cases h
  · unfold Reader.feedTick at h
    split_ifs at h
    · cases h
    · exact (feedQuotedList_atom h).elim
    · exact feedBare_list h
  · exact (feedQuotedList_atom h).elim
  · unfold Reader.feedQuotedString at h
    split_ifs at h <;> cases h

/-- No gap ends with a paren. -/
lemma idle_ne_rparen : scan Reader.start (u ++ [rparen]) ≠ ([], .ok Reader.start) := by
  intro h
  rw [scan_append] at h
  rcases hscan : scan Reader.start u with ⟨out, e | r⟩
  · rw [hscan] at h
    cases h
  · rw [hscan, scanOn_ok, scan_singleton] at h
    obtain ⟨hout, hok⟩ := Prod.mk.inj h
    obtain ⟨rfl, hnone⟩ := List.append_eq_nil_iff.mp hout
    have hfeed : r.feed rparen = ([], .ok Reader.start) := Prod.ext hnone hok
    by_cases hbusy : Busy r
    · rcases feed_busy hbusy hfeed with ⟨hgap, -⟩ | hlevels
      · exact hgap rfl
      · exact hlevels rfl
    · simp only [Busy, not_or, not_and_or, not_not] at hbusy
      obtain ⟨hlex | hlex, hlevels⟩ := hbusy
      · unfold Reader.feed Reader.feedLex at hfeed
        rw [hlex] at hfeed
        dsimp only at hfeed
        unfold Reader.feedGap at hfeed
        rw [if_neg (by decide), if_neg (by decide), if_neg (by decide), if_pos rfl, hlevels] at hfeed
        cases hfeed
      · unfold Reader.feed Reader.feedLex at hfeed
        rw [hlex] at hfeed
        simp [Reader.start, show rparen ≠ newline by decide] at hfeed

/-- A gap behind which a text ends with a paren is empty. -/
lemma gap_empty {w rest : List Byte} (hw : w ++ rest = u ++ [rparen])
    (hidle : scan Reader.start rest = ([], .ok Reader.start)) : rest = [] := by
  rcases List.eq_nil_or_concat rest with rfl | ⟨v, d, rfl⟩
  · rfl
  · rw [List.concat_eq_append] at hw hidle
    rw [← List.append_assoc] at hw
    obtain ⟨-, hd⟩ := List.append_inj' hw rfl
    rw [hd] at hidle
    exact absurd hidle idle_ne_rparen

end Parens

/-- A call returns a list and has consumed the whole text. -/
def ReadsWhole (g : Setup) (e : ErrCode) (w : List Byte) : Prop :=
  ∃ R ys, cparseSexp g (some (w ++ [nul])) w.length (some (Pcont.new g)) e = .ret R ∧
    R.cc.error = .ok ∧ R.cc.lastSexp = [.list ys] ∧ R.cursor = w.length

/-- A call on an apostrophe and the text returns the text as one atom and has consumed all of it. -/
def QuotesWhole (g : Setup) (e : ErrCode) (w : List Byte) : Prop :=
  ∃ R x, cparseSexp g (some (tick :: w ++ [nul])) (tick :: w).length (some (Pcont.new g)) e = .ret R ∧
    R.cc.error = .ok ∧ R.cc.lastSexp = [x] ∧ x.tree = .atom .squote w ∧
      R.cursor = (tick :: w).length

section Quote

variable {g : Setup} {e : ErrCode} {w : List Byte}

lemma element_of_readsWhole (hg : g.Succeeds) (hnul : nul ∉ w) (h : ReadsWhole g e w) :
    ∃ T own, Element false w (.list T) own [] := by
  obtain ⟨R, ys, hcall, -, htree, hend⟩ := h
  obtain ⟨-, -, hscan⟩ := scan_of_call hg hnul hcall htree
  rw [hend, List.drop_length] at hscan
  obtain ⟨r, u, c, hsplit, hfeed⟩ := endsChunk_of_call hg hnul hcall htree hend
  rw [Sexp.tree] at hfeed
  rw [feed_list hfeed] at hsplit
  obtain ⟨own, rest, helement⟩ := scan_start_iff.mp ⟨[], congrArg Prod.fst hscan⟩
  have hgive := scan_element helement []
  rw [between_nil, hscan, give, scanOn_ok] at hgive
  obtain ⟨hout, hok⟩ := Prod.mk.inj hgive
  have hnone : [] = (scan Reader.start rest).1 := (List.cons.inj hout).2
  obtain ⟨p, hp⟩ := element_suffix helement
  have hrest : rest = [] := gap_empty (hp.trans hsplit) (Prod.ext hnone.symm hok.symm)
  exact ⟨_, own, hrest ▸ helement⟩

/-- Without comments and backslashes a list is enclosed. -/
lemma enclosed_of_plain {T : List Tree} {own : Bool} (hb : backslash ∉ w) (hs : semicolon ∉ w)
    (hopen : w.head? = some lparen) (h : Element false w (.list T) own []) : Enclosed w := by
  obtain ⟨v, rfl⟩ := List.head?_eq_some_iff.mp hopen
  cases h with
  | atom hgap hl hr hatom =>
    rw [skipGap_solid (by decide) (by decide)] at hgap
    exact absurd (List.cons.inj hgap).1.symm hl
  | list hgap hall =>
    rw [skipGap_solid (by decide) (by decide)] at hgap
    obtain ⟨-, rfl⟩ := List.cons.inj hgap
    obtain ⟨-, u, rfl, hu⟩ := elements_plain hall rfl (fun hin => hb (List.mem_cons_of_mem _ hin))
      fun hin => hs (List.mem_cons_of_mem _ hin)
    apply (listEnd_enclosed _).mp
    have hinside := hu 1 [lparen] [rparen] Int.one_pos
    exact hinside

/-- A list is kept behind an apostrophe exactly when its parens, those in comments included, close
at its end; without comments and backslashes they do. -/
theorem quoting_keeps (hg : g.Succeeds) (hnul : nul ∉ w) (hopen : w.head? = some lparen)
    (hread : ReadsWhole g e w) :
    (QuotesWhole g e w ↔ Enclosed w) ∧ (backslash ∉ w → semicolon ∉ w → Enclosed w) := by
  have hnul' : nul ∉ tick :: w := by simp [hnul, show nul ≠ tick by decide]
  obtain ⟨T, own, hlist⟩ := element_of_readsWhole hg hnul hread
  refine ⟨⟨?_, ?_⟩, fun hb hs => enclosed_of_plain hb hs hopen hlist⟩
  · rintro ⟨R, x, hcall, -, htree, hx, -⟩
    obtain ⟨-, -, hscan⟩ := scan_of_call hg hnul' hcall htree
    obtain ⟨f, rest, helement⟩ := scan_start_iff.mp ⟨_, congrArg Prod.fst hscan⟩
    rw [hx] at helement
    obtain ⟨v, rfl⟩ := List.head?_eq_some_iff.mp hopen
    cases helement with
    | atom hgap hl hr hatom =>
      rw [skipGap_solid (by decide) (by decide)] at hgap
      obtain ⟨rfl, rfl⟩ := List.cons.inj hgap
      unfold nextAtom nextTick at hatom
      rw [if_neg (by decide), if_pos rfl] at hatom
      dsimp only at hatom
      rw [if_neg (by decide), if_pos rfl] at hatom
      obtain ⟨⟨r, rest'⟩, hend, heq⟩ := Option.map_eq_some_iff.mp hatom
      cases heq
      obtain ⟨p, -, hp, hself⟩ := listEnd_source hend
      rw [List.nil_append] at hp
      have hall := hself []
      rw [← hp, List.append_nil] at hall
      exact (listEnd_enclosed v).mp hall
  · intro henclosed
    obtain ⟨v, rfl⟩ := List.head?_eq_some_iff.mp hopen
    have hend := (listEnd_enclosed v).mpr henclosed
    have helement : Element false (tick :: lparen :: v) (.atom .squote (lparen :: v)) false [] := by
      refine .atom (skipGap_solid (by decide) (by decide)) (by decide) (by decide) ?_
      unfold nextAtom nextTick
      rw [if_neg (by decide), if_pos rfl]
      dsimp only
      rw [if_neg (by decide), if_pos rfl, hend]
      rfl
    obtain ⟨R, x, hcall, herror, htree, hx⟩ := call_of_element hg hnul' helement e
    obtain ⟨-, hle, hscan⟩ := scan_of_call hg hnul' hcall htree
    have hgive := scan_element helement []
    rw [between_nil, hscan, give, scanOn_nil] at hgive
    obtain ⟨hout, hok⟩ := Prod.mk.inj hgive
    obtain ⟨-, hnone⟩ := List.cons.inj hout
    -- the list ends with a paren, so nothing is left behind the cursor
    obtain ⟨t, ht⟩ := listEnd_last hend
    have hsplit : (tick :: lparen :: v).take R.cursor ++ (tick :: lparen :: v).drop R.cursor =
        (tick :: t) ++ [rparen] := by
      rw [List.take_append_drop, ht]
      rfl
    have hdrop := gap_empty hsplit (Prod.ext hnone hok)
    have hge : (tick :: lparen :: v).length ≤ R.cursor := List.drop_eq_nil_iff.mp hdrop
    exact ⟨R, x, hcall, herror, htree, hx, Nat.le_antisymm hle hge⟩

end Quote

section Examples

/-- Whether a text is read as a whole list can be computed. -/
lemma readsWhole_of_eval {g : Setup} {e : ErrCode} {w : List Byte}
    (h : (cparseSexp g (some (w ++ [nul])) w.length (some (Pcont.new g)) e).returnOf.map (fun R =>
      (R.cc.error, R.cc.lastSexp.map fun x => x matches .list _, R.cursor)) =
      some (.ok, [true], w.length)) : ReadsWhole g e w := by
  cases hcall : cparseSexp g (some (w ++ [nul])) w.length (some (Pcont.new g)) e with
  | ret R =>
    rw [hcall] at h
    simp only [Result.returnOf, Option.map_some, Option.some.injEq, Prod.mk.injEq] at h
    obtain ⟨herror, hlist, hcursor⟩ := h
    obtain ⟨x, hx, hmatch⟩ := List.map_eq_singleton_iff.mp hlist
    cases x with
    | value => cases hmatch
    | blob => cases hmatch
    | list ys => exact ⟨R, ys, hcall, herror, hx, hcursor⟩
  | null e =>
    rw [hcall] at h
    cases h
  | fault f =>
    rw [hcall] at h
    cases h
  | diverges =>
    rw [hcall] at h
    cases h

/-- The list `(a "(")`. -/
theorem quoting_keeps_string :
    QuotesWhole .plain .ok [lparen, 97, space, dquote, lparen, dquote, rparen] := by
  have hread : ReadsWhole .plain .ok [lparen, 97, space, dquote, lparen, dquote, rparen] :=
    readsWhole_of_eval (by decide +kernel)
  obtain ⟨hiff, hplain⟩ := quoting_keeps (fun _ => rfl) (by decide) rfl hread
  exact hiff.mpr (hplain (by decide) (by decide))

/-- The list `(a ;)`, newline, `)`: the quoted text ends with the paren in the comment. -/
theorem quoting_ends_in_comment :
    ReadsWhole .plain .ok [lparen, 97, space, semicolon, rparen, newline, rparen] ∧
    ¬ QuotesWhole .plain .ok [lparen, 97, space, semicolon, rparen, newline, rparen] := by
  refine ⟨readsWhole_of_eval (by decide +kernel), ?_⟩
  rintro ⟨R, x, hcall, -, -, -, hend⟩
  have hcursor : (cparseSexp .plain
      (some (tick :: [lparen, 97, space, semicolon, rparen, newline, rparen] ++ [nul]))
      (tick :: [lparen, 97, space, semicolon, rparen, newline, rparen]).length
      (some (Pcont.new .plain)) .ok).returnOf.map
        (fun R => R.cursor) = some 6 := by decide +kernel
  rw [hcall] at hcursor
  simp [Result.returnOf, hend] at hcursor

end Examples

end Sfsexp.Proofs
