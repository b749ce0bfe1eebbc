import Sfsexp.Proofs.Printing

/-!
# A `CSTRING` holds what was appended to it

The length, the capacity and the appended bytes are right after every operation. The terminator is
not: `sempty` only resets the length, so the string it emptied stays readable until something is
appended again.
-/

namespace Sfsexp.Proofs

open Sfsexp

/-- What was appended since the string was last emptied. -/
def contentAfter (t : List Byte) : StringOp → List Byte
  | .sadd a => t ++ cstr a
  | .saddch a _ => t ++ [a]
  | .sempty => []
  | _ => t

def contentOf (ops : List StringOp) : List Byte := ops.foldl contentAfter []

/-- The string of `o` represents `t`: there is room, and what `toCharPtr` points to is `t`. -/
structure Represents (o : Output) (t : List Byte) (s : CString) : Prop where
  str : o.str = some s
  room : s.curlen < s.len
  terminated : s.base[s.curlen]? = some nul
  text : (toCharPtr o).map cstr = some t
  curlen : s.curlen = t.length

/-- What is true of the string after every operation: `stale` tells that the bytes of a string that
was emptied are still in front. -/
structure Keeping (s : CString) (t : List Byte) (stale : Prop) : Prop where
  cells : s.base.length = s.len
  room : s.curlen < s.len
  curlen : s.curlen = t.length
  taken : s.base.take s.curlen = t
  free : nul ∉ t
  fresh : ¬ stale → s.base[s.curlen]? = some nul
  old : stale → t = [] ∧ s.base[0]? ≠ some nul

/-- The bytes of a string that was emptied are still in front after the operation. -/
def staleAfter (t : List Byte) (stale : Prop) : StringOp → Prop
  | .sadd _ => False
  | .saddch _ _ => False
  | .sempty => stale ∨ t ≠ []
  | _ => stale

section Operations

variable {g : StringSetup} {a t : List Byte} {s : CString} {o : Output} {stale : Prop}

lemma keeping_write (h : Keeping s t stale) (ha : nul ∉ a) (hroom : s.curlen + a.length < s.len) :
    ∃ s', s.write a = .ok s' ∧ Keeping s' (t ++ a) False := by
  have hcells := h.cells
  have hcurlen := h.curlen
  have hlen : s.curlen + a.length = (t ++ a).length := by rw [List.length_append, hcurlen]
  refine ⟨_, by rw [CString.write, if_pos (by omega), h.taken], ?_, hroom, hlen, ?_, ?_, ?_, ?_⟩
  · simp only [List.length_append, List.length_cons, List.length_drop]
    omega
  · dsimp only
    rw [hlen, List.take_left]
  · rw [List.mem_append, not_or]
    exact ⟨h.free, ha⟩
  · intro _
    dsimp only
    rw [hlen, List.getElem?_append_right (Nat.le_refl _), Nat.sub_self]
    rfl
  · intro hfalse
    exact hfalse.elim

/-- A buffer that grew holds the same string. -/
lemma Keeping.grown (h : Keeping s t stale) (more : List Byte) :
    Keeping { s with base := s.base ++ more, len := s.len + more.length } t stale := by
  have hroom := h.room
  have hlt : s.curlen < s.base.length := by rw [h.cells]; exact hroom
  refine ⟨by simp [h.cells], Nat.lt_add_right _ hroom, h.curlen, ?_, h.free, ?_, ?_⟩
  · dsimp only
    rw [List.take_append_of_le_length hlt.le]
    exact h.taken
  · intro hstale
    dsimp only
    rw [List.getElem?_append_left hlt]
    exact h.fresh hstale
  · intro hstale
    dsimp only
    rw [List.getElem?_append_left (by omega)]
    exact h.old hstale

lemma keeping_append (hg : g.Succeeds) (ha : nul ∉ a) (ho : o.str = some s)
    (h : Keeping s t stale) :
    ∃ o' s', append g a o = .ok o' ∧ o'.str = some s' ∧ Keeping s' (t ++ a) False := by
  have hcells := h.cells
  have hroom := h.room
  have hpos := g.growsize_pos
  rw [append, ho]
  dsimp only
  by_cases hfull : s.curlen + a.length ≥ s.len
  · have hgrown := h.grown (g.fresh (g.growsize + a.length))
    rw [g.length_fresh] at hgrown
    obtain ⟨s', hwrite, hs'⟩ := keeping_write hgrown ha (by dsimp only; omega)
    rw [if_pos hfull, if_pos (hg _), hwrite]
    exact ⟨_, s', rfl, rfl, hs'⟩
  · obtain ⟨s', hwrite, hs'⟩ := keeping_write h ha (by omega)
    rw [if_neg hfull, hwrite]
    exact ⟨_, s', rfl, rfl, hs'⟩

lemma keeping_strim (hg : g.Succeeds) (ho : o.str = some s) (h : Keeping s t stale) :
    ∃ s', (strim g.toSetup o).str = some s' ∧ Keeping s' t stale := by
  have hcells := h.cells
  have hroom := h.room
  rw [strim, ho]
  dsimp only
  by_cases htrim : s.len = s.curlen + 1
  · rw [if_pos htrim]
    exact ⟨s, ho, h⟩
  · rw [if_neg htrim, if_pos (hg _)]
    have hzero : s.curlen + 1 - s.len = 0 := by omega
    have hbase : s.base.take (s.curlen + 1) ++ g.fresh (s.curlen + 1 - s.len) =
        s.base.take (s.curlen + 1) := by
      rw [hzero]
      exact List.append_nil _
    refine ⟨_, rfl, ?_, Nat.lt_succ_self _, h.curlen, ?_, h.free, ?_, ?_⟩
    · dsimp only
      rw [hbase, List.length_take]
      omega
    · dsimp only
      rw [hbase, List.take_take, Nat.min_eq_left (Nat.le_succ _)]
      exact h.taken
    · intro hstale
      dsimp only
      rw [hbase, List.getElem?_take_of_lt (Nat.lt_succ_self _)]
      exact h.fresh hstale
    · intro hstale
      dsimp only
      rw [hbase, List.getElem?_take_of_lt (Nat.succ_pos _)]
      exact h.old hstale

lemma keeping_sempty (ho : o.str = some s) (h : Keeping s t stale) :
    ∃ s', (sempty o).str = some s' ∧ Keeping s' [] (stale ∨ t ≠ []) := by
  have hroom := h.room
  rw [sempty, ho]
  refine ⟨_, rfl, h.cells, by dsimp only; omega, rfl, rfl, List.not_mem_nil, ?_, ?_⟩
  · intro hstale
    rw [not_or, not_not] at hstale
    obtain ⟨hfresh, rfl⟩ := hstale
    have hnul := h.fresh hfresh
    rwa [h.curlen] at hnul
  · intro hstale
    refine ⟨rfl, ?_⟩
    rcases hstale with hstale | hne
    · exact (h.old hstale).2
    · intro hnul
      obtain ⟨c, u, rfl⟩ := List.exists_cons_of_ne_nil hne
      have htaken := h.taken
      rw [h.curlen] at htaken
      have hhead : s.base[0]? = some c := by
        have hsplit := List.take_append_drop (c :: u).length s.base
        rw [htaken] at hsplit
        rw [← hsplit]
        rfl
      dsimp only at hnul
      rw [hhead] at hnul
      cases hnul
      exact h.free List.mem_cons_self

/-- One operation. -/
lemma keeping_run (op : StringOp) (hg : g.Succeeds) (ho : o.str = some s) (h : Keeping s t stale) :
    ∃ g' o' s', op.run (g, o) = .ok (g', o') ∧ g'.Succeeds ∧ o'.str = some s' ∧
      Keeping s' (contentAfter t op) (staleAfter t stale op) := by
  cases op with
  | sgrowsize n =>
    refine ⟨_, o, s, rfl, ?_, ho, h⟩
    unfold sgrowsize
    split_ifs
    · exact hg
    · exact hg
  | sadd a =>
    obtain ⟨o', s', hrun, hs', hk⟩ := keeping_append hg (nul_cstr a) ho h
    refine ⟨g, o', s', ?_, hg, hs', hk⟩
    rw [StringOp.run, sadd, hrun]
    rfl
  | saddch a ha =>
    obtain ⟨o', s', hrun, hs', hk⟩ := @keeping_append g [a] t s o stale hg (by simpa using ha.symm) ho h
    refine ⟨g, o', s', ?_, hg, hs', hk⟩
    rw [StringOp.run, saddch, hrun]
    rfl
  | strim =>
    obtain ⟨s', hs', hk⟩ := keeping_strim hg ho h
    exact ⟨g, _, s', rfl, hg, hs', hk⟩
  | sempty =>
    obtain ⟨s', hs', hk⟩ := keeping_sempty ho h
    exact ⟨g, _, s', rfl, hg, hs', hk⟩

/-- Where no stale bytes are in front, the string is represented, and only there. -/
lemma Keeping.represents (h : Keeping s t stale) (ho : o.str = some s) :
    Represents o t s ↔ ¬ stale := by
  constructor
  · intro hr hstale
    obtain ⟨rfl, hold⟩ := h.old hstale
    have hnul := hr.terminated
    rw [hr.curlen] at hnul
    exact hold hnul
  · intro hstale
    have hnul := h.fresh hstale
    obtain ⟨hlt, hget⟩ := List.getElem?_eq_some_iff.mp hnul
    have hsplit : s.base = t ++ nul :: s.base.drop (s.curlen + 1) := by
      conv_lhs => rw [← List.take_append_drop s.curlen s.base, h.taken,
        List.drop_eq_getElem_cons hlt, hget]
    have htext := cstr_append_nul t (s.base.drop (s.curlen + 1))
    rw [cstr_of_noNul h.free, ← hsplit] at htext
    refine ⟨ho, h.room, hnul, ?_, h.curlen⟩
    rw [toCharPtr, ho]
    exact congrArg some htext

end Operations

section Runs

variable {g : StringSetup} {o : Output} {s : CString} {t : List Byte} {stale : Prop}

/-- Whether stale bytes are in front after a run. -/
def staleOf (t : List Byte) (stale : Prop) : List StringOp → Prop
  | [] => stale
  | op :: ops => staleOf (contentAfter t op) (staleAfter t stale op) ops

lemma keeping_runOps (ops : List StringOp) (hg : g.Succeeds) (ho : o.str = some s)
    (h : Keeping s t stale) :
    ∃ g' o' s', runOps ops (g, o) = .ok (g', o') ∧ o'.str = some s' ∧
      Keeping s' (ops.foldl contentAfter t) (staleOf t stale ops) := by
  induction ops generalizing g o s t stale with
  | nil => exact ⟨g, o, s, rfl, ho, h⟩
  | cons op ops ih =>
    obtain ⟨g₁, o₁, s₁, hrun, hg₁, ho₁, h₁⟩ := keeping_run op hg ho h
    obtain ⟨g₂, o₂, s₂, hruns, ho₂, h₂⟩ := ih hg₁ ho₁ h₁
    refine ⟨g₂, o₂, s₂, ?_, ho₂, h₂⟩
    rw [runOps, hrun]
    exact hruns

lemma keeping_snew (hg : g.Succeeds) {n : Nat} (hn : 0 < n) (h : Heap) :
    ∃ s, (snew g n h).str = some s ∧ Keeping s [] False := by
  rw [snew, hg, hg]
  refine ⟨_, rfl, by simp, hn, rfl, rfl, List.not_mem_nil, ?_, ?_⟩
  · intro _
    simp [hn]
  · intro hfalse
    exact hfalse.elim

/-- The bytes in front go stale when a string that is not empty is emptied, and only then. -/
lemma not_stale_iff (ops : List StringOp) :
    (∀ p, p <+: ops → ¬ staleOf t stale p) ↔
      ¬ stale ∧ ∀ p, p ++ [.sempty] <+: ops → p.foldl contentAfter t = [] := by
  induction ops generalizing t stale with
  | nil => simp [staleOf]
  | cons op ops ih =>
    have hstep : ¬ stale → (¬ staleAfter t stale op ↔ (op = .sempty → t = [])) := by
      intro hstale
      cases op <;> simp [staleAfter, hstale]
    have hleft : (∀ p, p <+: op :: ops → ¬ staleOf t stale p) ↔
        ¬ stale ∧ ∀ p, p <+: ops → ¬ staleOf (contentAfter t op) (staleAfter t stale op) p := by
      constructor
      · intro h
        refine ⟨h [] List.nil_prefix, ?_⟩
        intro p hp
        exact h (op :: p) (List.cons_prefix_cons.mpr ⟨rfl, hp⟩)
      · rintro ⟨hstale, h⟩ p hp
        cases p with
        | nil => exact hstale
        | cons a p =>
          obtain ⟨rfl, hrest⟩ := List.cons_prefix_cons.mp hp
          exact h p hrest
    rw [hleft, ih]
    constructor
    · rintro ⟨hstale, hnext, h⟩
      refine ⟨hstale, ?_⟩
      intro p hp
      cases p with
      | nil =>
        obtain ⟨hop, -⟩ := List.cons_prefix_cons.mp hp
        exact (hstep hstale).mp hnext hop.symm
      | cons a p =>
        obtain ⟨rfl, hrest⟩ := List.cons_prefix_cons.mp hp
        exact h p hrest
    · rintro ⟨hstale, h⟩
      refine ⟨hstale, (hstep hstale).mpr ?_, ?_⟩
      · rintro rfl
        exact h [] (List.cons_prefix_cons.mpr ⟨rfl, List.nil_prefix⟩)
      · intro p hp
        exact h (op :: p) (List.cons_prefix_cons.mpr ⟨rfl, hp⟩)

/-- The string of a new `CSTRING` is represented after each operation exactly when `sempty` is only
called on an empty string. -/
theorem string_represents (hg : g.Succeeds) {n : Nat} (hn : 0 < n) (h : Heap)
    (ops : List StringOp) :
    (∀ p, p <+: ops → ∃ g' o s, runOps p (g, snew g n h) = .ok (g', o) ∧
        Represents o (contentOf p) s) ↔
      ∀ p, p ++ [.sempty] <+: ops → contentOf p = [] := by
  obtain ⟨s, hs, hk⟩ := keeping_snew hg hn h
  have hfresh : (∀ p, p <+: ops → ∃ g' o s, runOps p (g, snew g n h) = .ok (g', o) ∧
      Represents o (contentOf p) s) ↔ ∀ p, p <+: ops → ¬ staleOf [] False p := by
    apply forall₂_congr
    intro p _
    obtain ⟨g', o, s', hrun, ho, hkept⟩ := keeping_runOps p hg hs hk
    constructor
    · rintro ⟨g'', o', s'', hrun', hr⟩
      rw [hrun] at hrun'
      cases hrun'
      have hsame := hr.str
      rw [ho] at hsame
      cases hsame
      exact (hkept.represents ho).mp hr
    · intro hstale
      exact ⟨g', o, s', hrun, (hkept.represents ho).mpr hstale⟩
  rw [hfresh, not_stale_iff]
  simp [contentOf]

/-- Appending, trimming and appending again. -/
theorem string_represents_trimmed :
    ∃ g' o s, runOps [.saddch 97 (by decide), .strim, .sadd [98, 99]]
        (StringSetup.plain, snew StringSetup.plain 1 ⟨0, .ok⟩) = .ok (g', o) ∧
      Represents o (contentOf [.saddch 97 (by decide), .strim, .sadd [98, 99]]) s := by
  refine (string_represents (fun _ => rfl) (by decide) ⟨0, .ok⟩ _).mpr ?_ _ (List.prefix_refl _)
  intro p hp
  have hmem : StringOp.sempty ∈ [StringOp.saddch 97 (by decide), .strim, .sadd [98, 99]] :=
    hp.subset (List.mem_append_right _ (List.mem_singleton_self _))
  simp at hmem

/-- The string `a`, once emptied, still reads as `a`. -/
theorem emptied_string_is_stale :
    ∃ g o, runOps [.saddch 97 (by decide), .sempty]
        (StringSetup.plain, snew StringSetup.plain 4 ⟨0, .ok⟩) = .ok (g, o) ∧
      (toCharPtr o).map cstr = some [97] ∧ ¬ ∃ s, Represents o [] s := by
  refine ⟨_, _, rfl, by decide, ?_⟩
  rintro ⟨s, hr⟩
  have htext := hr.text
  exact absurd htext (by decide)

end Runs

end Sfsexp.Proofs
