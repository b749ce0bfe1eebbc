import Mathlib.Data.List.Basic

/-!
# Singly linked chains

The addresses that are met when a link function is followed from a pointer. A chain is kept with
its first and its last address, as a queue that is appended to at the end.
-/

namespace Chain

variable {α : Type}

/-- The links lead from `p` through the addresses `ns` and end there. -/
def Linked (next : α → Option α) : Option α → List α → Prop
  | p, [] => p = none
  | p, a :: ns => p = some a ∧ Linked next (next a) ns

/-- `fst` and `lst` are the ends of the chain of the addresses `ns`. -/
structure Spans (next : α → Option α) (fst lst : Option α) (ns : List α) : Prop where
  linked : Linked next fst ns
  last : lst = ns.getLast?

variable {next next' : α → Option α} {p fst lst : Option α} {ns : List α} {a : α}

lemma spans_nil : Spans next none none [] := ⟨rfl, rfl⟩

/-- A chain does not notice what is changed elsewhere. -/
lemma Linked.frame (h : Linked next p ns) (hsame : ∀ b ∈ ns, next' b = next b) :
    Linked next' p ns := by
  induction ns generalizing p with
  | nil => exact h
  | cons b ns ih =>
    obtain ⟨hp, hns⟩ := h
    refine ⟨hp, ?_⟩
    rw [hsame b (List.mem_cons_self ..)]
    exact ih hns fun x hx => hsame x (List.mem_cons_of_mem _ hx)

lemma Spans.frame (h : Spans next fst lst ns) (hsame : ∀ b ∈ ns, next' b = next b) :
    Spans next' fst lst ns :=
  ⟨h.linked.frame hsame, h.last⟩

/-- The ends of a chain are both there or both not. -/
lemma Spans.fst_eq_none (h : Spans next fst lst ns) : fst = none ↔ ns = [] := by
  cases ns with
  | nil =>
    have hp : fst = none := h.linked
    simp [hp]
  | cons b ns => simp [h.linked.1]

lemma Spans.lst_eq_none (h : Spans next fst lst ns) : lst = none ↔ ns = [] := by
  rw [h.last, List.getLast?_eq_none_iff]

/-- A chain of one address. -/
lemma spans_singleton (ha : next a = none) : Spans next (some a) (some a) [a] :=
  ⟨⟨rfl, ha⟩, rfl⟩

lemma Linked.concat {b : α} (h : Linked next p (ns ++ [b])) (hnot : b ∉ ns)
    (hsame : ∀ c ∈ ns, next' c = next c) (hlink : next' b = some a) (ha : next' a = none) :
    Linked next' p (ns ++ [b] ++ [a]) := by
  induction ns generalizing p with
  | nil => exact ⟨h.1, hlink, ha⟩
  | cons c ns ih =>
    obtain ⟨hp, hns⟩ := h
    refine ⟨hp, ?_⟩
    rw [hsame c (List.mem_cons_self ..)]
    exact ih hns (fun hb => hnot (List.mem_cons_of_mem _ hb))
      fun x hx => hsame x (List.mem_cons_of_mem _ hx)

/-- Linking the last address to `a` makes `a` the last one. -/
lemma Spans.concat {b : α} (h : Spans next fst (some b) ns) (hnodup : ns.Nodup)
    (hsame : ∀ c ∈ ns, c ≠ b → next' c = next c) (hlink : next' b = some a)
    (ha : next' a = none) : Spans next' fst (some a) (ns ++ [a]) := by
  obtain ⟨ms, rfl⟩ := List.getLast?_eq_some_iff.mp h.last.symm
  have hnot : b ∉ ms := by
    intro hb
    exact (List.nodup_append.mp hnodup).2.2 b hb b (List.mem_singleton_self b) rfl
  refine ⟨h.linked.concat hnot ?_ hlink ha, by simp⟩
  intro c hc
  exact hsame c (List.mem_append_left _ hc) fun hcb => hnot (hcb ▸ hc)

end Chain
