import Mathlib.Data.List.Forall2
import Sfsexp.Model.ParseData
import Sfsexp.Proofs.Tokens

/-!
# The parse stack

At every loop head the stack has one level for each open list and one below them, the chains of the
levels run from `fst` to `lst`, and each level below the top ends in the list that is open above it.
-/

namespace Sfsexp.Proofs

open Sfsexp

section Links

variable {s s' : Links} {A : List (List Nat)} {ns : List Nat} {a : Nat}

/-- The chain of a level in the nodes of `s`. -/
def LevelSpans (s : Links) (data : ParseData) (ns : List Nat) : Prop :=
  Chain.Spans s.next data.fst data.lst ns

/-- The chain ends in a list whose children are not known yet. -/
def OpenEnd (s : Links) (ns : List Nat) : Prop :=
  ∃ a, ns.getLast? = some a ∧ s.nodes[a]? = some ⟨true, none, none⟩

/-- The levels hold the chains `A` of nodes, no node twice, and all chains but the top one end in an
open list. -/
structure Chained (s : Links) (A : List (List Nat)) : Prop where
  spans : List.Forall₂ (LevelSpans s) s.levels A
  apart : A.flatten.Nodup
  known : ∀ a ∈ A.flatten, a < s.nodes.length
  opens : ∀ ns ∈ A.tail, OpenEnd s ns

lemma chained_empty (h : s.levels = []) : Chained s [] :=
  ⟨by simp [h], by simp, by simp, by simp⟩

/-- The chains are left alone when the nodes on them are. -/
lemma forall_spans_frame {ds : List ParseData} (h : List.Forall₂ (LevelSpans s) ds A)
    (hsame : ∀ a ∈ A.flatten, s'.nodes[a]? = s.nodes[a]?) :
    List.Forall₂ (LevelSpans s') ds A := by
  induction h with
  | nil => exact .nil
  | @cons d ns ds A hd _ ih =>
    refine .cons (hd.frame ?_) (ih ?_)
    · intro a ha
      rw [Links.next, Links.next, hsame a (by simp [ha])]
    · intro a ha
      exact hsame a (by simp at ha ⊢; exact .inr ha)

lemma OpenEnd.frame (h : OpenEnd s ns) (hsame : ∀ a ∈ ns, s'.nodes[a]? = s.nodes[a]?) :
    OpenEnd s' ns := by
  obtain ⟨a, ha, hnode⟩ := h
  exact ⟨a, ha, by rw [hsame a (List.mem_of_getLast? ha), hnode]⟩

/-- A new node `a` behind the last one of the top chain. -/
lemma Chained.concat {T : List Nat} (kind : Bool) (h : Chained s (T :: A))
    (ha : a = s.nodes.length) (hlen : s'.nodes.length = a + 1)
    (hnew : s'.nodes[a]? = some ⟨kind, none, none⟩)
    (hold : ∀ c < a, T.getLast? ≠ some c → s'.nodes[c]? = s.nodes[c]?)
    (hlast : ∀ c, T.getLast? = some c → s'.next c = some a)
    (hlevels : ∃ d ds fst, s.levels = d :: ds ∧ s'.levels = ⟨fst, some a⟩ :: ds ∧
      (T = [] → fst = some a) ∧ (T ≠ [] → fst = d.fst)) :
    Chained s' ((T ++ [a]) :: A) := by
  obtain ⟨d, ds, fst, hs, hs', hempty, hfull⟩ := hlevels
  have hspans := h.spans
  rw [hs] at hspans
  obtain ⟨hd, hds⟩ := List.forall₂_cons.mp hspans
  have hapart := h.apart
  rw [List.flatten_cons, List.nodup_append] at hapart
  have hT : ∀ c ∈ T, c < a := by
    intro c hc
    rw [ha]
    exact h.known c (List.mem_append_left _ hc)
  have hA : ∀ c ∈ A.flatten, c < a := by
    intro c hc
    rw [ha]
    exact h.known c (List.mem_append_right _ hc)
  have hbelow : ∀ c ∈ A.flatten, s'.nodes[c]? = s.nodes[c]? := by
    intro c hc
    apply hold c (hA c hc)
    intro hlast
    exact hapart.2.2 c (List.mem_of_getLast? hlast) c hc rfl
  have ha' : s'.next a = none := by rw [Links.next, hnew]; rfl
  have hflat : ((T ++ [a]) :: A).flatten = T ++ (a :: A.flatten) := by simp
  refine ⟨?_, ?_, ?_, ?_⟩
  · rw [hs']
    refine .cons ?_ (forall_spans_frame hds hbelow)
    cases hb : T.getLast? with
    | none =>
      obtain rfl := List.getLast?_eq_none_iff.mp hb
      rw [hempty rfl]
      exact Chain.spans_singleton ha'
    | some b =>
      have hne : T ≠ [] := by
        rintro rfl
        simp at hb
      rw [hfull hne]
      refine Chain.Spans.concat (b := b) ⟨hd.linked, hb.symm⟩ hapart.1 ?_ (hlast b hb) ha'
      intro c hc hcb
      rw [Links.next, Links.next, hold c (hT c hc) ?_]
      rw [hb]
      intro he
      exact hcb (Option.some.inj he).symm
  · rw [hflat, List.nodup_append]
    refine ⟨hapart.1, List.nodup_cons.mpr ⟨fun hmem => ?_, hapart.2.1⟩, ?_⟩
    · exact absurd (hA a hmem) (by omega)
    · intro c hc b hb
      rcases List.mem_cons.mp hb with rfl | hb
      · have := hT c hc
        omega
      · exact hapart.2.2 c hc b hb
  · intro c hc
    rw [hflat, List.mem_append, List.mem_cons] at hc
    rw [hlen]
    rcases hc with hc | rfl | hc
    · have := hT c hc
      omega
    · omega
    · have := hA c hc
      omega
  · intro ns hns
    refine (h.opens ns hns).frame ?_
    intro c hc
    exact hbelow c (List.mem_flatten.mpr ⟨ns, hns, hc⟩)

@[simp] lemma Links.nodes_alloc (kind : Bool) :
    (s.alloc kind).nodes = s.nodes ++ [⟨kind, none, none⟩] := rfl

@[simp] lemma Links.levels_alloc (kind : Bool) : (s.alloc kind).levels = s.levels := rfl

/-- Writing `next` of the last node of the top chain. -/
lemma Chained.setNext {T : List Nat} (kind : Bool) {b : Nat} {d : ParseData} {ds : List ParseData}
    (h : Chained s (T :: A)) (hs : s.levels = d :: ds) (hb : d.lst = some b) :
    ∃ s₁, (s.alloc kind).setNext d.lst s.nodes.length = some s₁ ∧
      Chained { s₁ with levels := ⟨d.fst, some s.nodes.length⟩ :: ds }
        ((T ++ [s.nodes.length]) :: A) ∧ s₁.nodes[s.nodes.length]? = some ⟨kind, none, none⟩ := by
  have hspans := h.spans
  rw [hs] at hspans
  have hd := (List.forall₂_cons.mp hspans).1
  have hlast : T.getLast? = some b := by rw [← hd.last, hb]
  have hlt : b < s.nodes.length := h.known b (by simp [List.mem_of_getLast? hlast])
  refine ⟨_, by rw [hb]; rfl, ?_, ?_⟩
  · refine h.concat kind rfl (by simp) ?_ ?_ ?_ ⟨d, ds, d.fst, hs, rfl, ?_, fun _ => rfl⟩
    · simp [show b ≠ s.nodes.length by omega]
    · intro c hc hne
      have hbc : b ≠ c := fun he => hne (he ▸ hlast)
      simp [hbc, List.getElem?_append_left hc]
    · intro c hc
      obtain rfl : b = c := Option.some.inj (hlast.symm.trans hc)
      simp [Links.next, List.getElem?_append_left hlt,
        List.getElem?_eq_getElem hlt]
    · rintro rfl
      simp at hlast
  · simp [show b ≠ s.nodes.length by omega]

/-- The first node of an empty top chain. -/
lemma Chained.setFirst (kind : Bool) {d : ParseData} {ds : List ParseData}
    (h : Chained s ([] :: A)) (hs : s.levels = d :: ds) :
    Chained { s.alloc kind with
      levels := ⟨some s.nodes.length, some s.nodes.length⟩ :: ds } ([s.nodes.length] :: A) := by
  refine h.concat kind rfl (by simp) (by simp) ?_ (by simp)
    ⟨d, ds, _, hs, rfl, fun _ => rfl, fun hne => absurd rfl hne⟩
  intro c hc _
  simp [List.getElem?_append_left hc]

/-- An atom is put behind the last element of the top level. -/
lemma attach_ok {T : List Nat} (h : Chained s (T :: A)) :
    ∃ s', s.attach = some s' ∧ Chained s' ((T ++ [s.nodes.length]) :: A) := by
  obtain ⟨d, ds, hd, -, hs⟩ := List.forall₂_cons_right_iff.mp h.spans
  cases hfst : d.fst with
  | none =>
    obtain rfl := hd.fst_eq_none.mp hfst
    refine ⟨_, ?_, h.setFirst false hs⟩
    simp [Links.attach, hs, hfst]
  | some p =>
    cases hlst : d.lst with
    | none =>
      rw [hd.fst_eq_none.mpr (hd.lst_eq_none.mp hlst)] at hfst
      cases hfst
    | some b =>
      obtain ⟨s₁, hset, hchain, -⟩ := h.setNext false hs hlst
      refine ⟨_, ?_, hchain⟩
      simp [Links.attach, hs, hfst, hset]

/-- A list is put behind the last element of the top level. -/
lemma attachList_ok {T : List Nat} (h : Chained s (T :: A)) :
    ∃ d ds s', s.levels = d :: ds ∧
      (s.alloc true).attachList s.nodes.length d ds = some s' ∧
      Chained s' ((T ++ [s.nodes.length]) :: A) ∧
      s'.nodes[s.nodes.length]? = some ⟨true, none, none⟩ := by
  obtain ⟨d, ds, hd, -, hs⟩ := List.forall₂_cons_right_iff.mp h.spans
  cases hlst : d.lst with
  | none =>
    obtain rfl := hd.lst_eq_none.mp hlst
    refine ⟨d, ds, _, hs, ?_, h.setFirst true hs, by simp⟩
    simp [Links.attachList, hlst]
  | some b =>
    obtain ⟨s₁, hset, hchain, hnode⟩ := h.setNext true hs hlst
    refine ⟨d, ds, _, hs, ?_, hchain, hnode⟩
    simp [Links.attachList, hlst, hlst ▸ hset]

/-- A new empty level above a chain that ends in an open list. -/
lemma Chained.push (h : Chained s (ns :: A)) (hopen : OpenEnd s ns) :
    Chained { s with levels := ⟨none, none⟩ :: s.levels } ([] :: ns :: A) := by
  refine ⟨.cons Chain.spans_nil h.spans, by simpa using h.apart, by simpa using h.known, ?_⟩
  intro ms hms
  rcases List.mem_cons.mp hms with rfl | hms
  · exact hopen
  · exact h.opens ms hms

lemma openList_first (h : Chained s []) :
    ∃ s', s.openList = some s' ∧ Chained s' [[], [s.nodes.length]] := by
  have hs : s.levels = [] := List.forall₂_nil_right_iff.mp h.spans
  have hone : Chained { s.alloc true with levels := [⟨some s.nodes.length, some s.nodes.length⟩] }
      [[s.nodes.length]] := by
    refine ⟨.cons (Chain.spans_singleton ?_) .nil, by simp, by simp, by simp⟩
    simp [Links.next]
  refine ⟨_, ?_, hone.push ⟨s.nodes.length, rfl, by simp⟩⟩
  simp [Links.openList, hs]

lemma openList_inner {T : List Nat} (h : Chained s (T :: A)) :
    ∃ s', s.openList = some s' ∧ Chained s' ([] :: (T ++ [s.nodes.length]) :: A) := by
  obtain ⟨d, ds, s₁, hs, hattach, hchain, hnode⟩ := attachList_ok h
  refine ⟨_, ?_, hchain.push ⟨s.nodes.length, by simp, hnode⟩⟩
  simp [Links.openList, hs, hattach]

/-- The list below the top level gets its children. -/
lemma closeList_ok {T U : List Nat} (h : Chained s (T :: U :: A)) :
    ∃ s', s.closeList = some s' ∧ Chained s' (U :: A) := by
  obtain ⟨d, ds, hd, hds, hs⟩ := List.forall₂_cons_right_iff.mp h.spans
  obtain ⟨e, es, he, hes, rfl⟩ := List.forall₂_cons_right_iff.mp hds
  obtain ⟨b, hb, -⟩ := h.opens U (by simp)
  have hlst : e.lst = some b := by rw [he.last, hb]
  have hapart : (U :: A).flatten.Nodup := by
    have := h.apart
    rw [List.flatten_cons, List.nodup_append] at this
    exact this.2.1
  refine ⟨{ s with levels := e :: es, nodes := s.nodes.modify b fun n => { n with list := d.fst } },
    ?_, ?_, hapart, ?_, ?_⟩
  · simp [Links.closeList, hs, hlst, Links.setList]
  · refine .cons (he.frame ?_) (forall_spans_frame hes ?_)
    · intro c _
      rw [Links.next, Links.next, List.getElem?_modify]
      cases s.nodes[c]? with
      | none => rfl
      | some n => by_cases hbc : b = c <;> simp [hbc]
    · intro c hc
      have hbc : b ≠ c := by
        rintro rfl
        rw [List.flatten_cons, List.nodup_append] at hapart
        exact hapart.2.2 b (List.mem_of_getLast? hb) b hc rfl
      simp [hbc]
  · intro c hc
    simpa using h.known c (by simp at hc ⊢; tauto)
  · intro ns hns
    refine (h.opens ns (by simp at hns ⊢; exact .inr hns)).frame ?_
    intro c hc
    have hbc : b ≠ c := by
      rintro rfl
      rw [List.flatten_cons, List.nodup_append] at hapart
      exact hapart.2.2 b (List.mem_of_getLast? hb) b (List.mem_flatten.mpr ⟨ns, hns, hc⟩) rfl
    simp [hbc]

end Links

/-- The stack with `x` behind the last element of its top level. -/
def addTop (x : Sexp) (s : Faststack) : Faststack :=
  match s.levels with
  | [] => s
  | top :: rest => { s with levels := (top ++ [x]) :: rest }

/-- A piece of a round that leaves the stack and the state alone. -/
abbrev Calm (l : Locals) : Exec Locals → Prop :=
  Post (fun l' => l'.stack = l.stack ∧ l'.depth = l.depth ∧ l'.elts = l.elts ∧ l'.state = l.state)
    (fun _ => False) (· ≠ .nullPointer)

/-- A round that adds at most one atom to the stack, and that returns only with an empty stack. -/
abbrev Adds (l : Locals) : Exec Locals → Prop :=
  Post (fun l' => l'.depth = l.depth ∧ l'.state ≠ .unknown ∧
      (l'.elts = l.elts ∧ l'.stack = l.stack ∨
        ∃ x, l'.elts = l.elts + 1 ∧ l'.stack = addTop x l.stack))
    (fun r => r.cc.depth = l.depth ∧ r.cc.stack = l.stack ∧ l.stack.levels = [] ∧
      r.cc.state ≠ .unknown ∧ r.errno = .ok) (· ≠ .nullPointer)

section Rounds

variable {env : Env} {l l₀ : Locals} {c : Byte}

/-- A calm piece inside a round. -/
lemma Calm.adds {x : Exec Locals} {f : Locals → Exec Locals} (hx : Calm l x)
    (hf : ∀ l', l'.stack = l.stack ∧ l'.depth = l.depth ∧ l'.elts = l.elts ∧ l'.state = l.state →
      Adds l₀ (f l')) : Adds l₀ (x >>= f) :=
  Post.bind (hx.mono (fun _ h => h) fun _ h => h.elim) hf

lemma calm_writeCur : Calm l (writeCur c l) := by
  rw [writeCur]
  split_ifs
  · exact ⟨rfl, rfl, rfl, rfl⟩
  · intro h
    cases h

lemma calm_grow (h : env.Succeeds) {keep : Bool} : Calm l (grow env keep l) := by
  rw [grow]
  by_cases hfull : l.valUsed = l.valAllocated
  · rw [if_pos hfull, if_pos (h _)]
    exact ⟨rfl, rfl, rfl, rfl⟩
  · rw [if_neg hfull]
    exact ⟨rfl, rfl, rfl, rfl⟩

lemma calm_store (h : env.Succeeds) : Calm l (store env c l) := by
  refine Post.bind calm_writeCur ?_
  intro l₁ h₁
  refine Post.mono (calm_grow h) ?_ fun _ h => h
  intro l₂ h₂
  exact ⟨h₂.1.trans h₁.1, h₂.2.1.trans h₁.2.1, h₂.2.2.1.trans h₁.2.2.1, h₂.2.2.2.trans h₁.2.2.2⟩

lemma calm_storeEsc (h : env.Succeeds) : Calm l (storeEsc env c l) := by
  refine Post.bind calm_writeCur ?_
  intro l₁ h₁
  refine Post.mono (calm_grow h) ?_ fun _ h => h
  intro l₂ h₂
  exact ⟨h₂.1.trans h₁.1, h₂.2.1.trans h₁.2.1, h₂.2.2.1.trans h₁.2.2.1, h₂.2.2.2.trans h₁.2.2.2⟩

lemma calm_closingQuote (h : env.Succeeds) : Calm l (closingQuote env l) := by
  rw [closingQuote]
  split_ifs
  · exact calm_store h
  · exact ⟨rfl, rfl, rfl, rfl⟩

lemma calm_overwrite : Calm l (overwrite c l) := by
  rw [overwrite]
  split
  · intro h
    cases h
  · split_ifs
    · exact ⟨rfl, rfl, rfl, rfl⟩
    · intro h
      cases h

lemma calm_read {f : Byte → Exec Locals} {t : Nat} (hf : ∀ c, Adds l₀ (f c)) :
    Adds l₀ (env.read t >>= f) := by
  rw [Env.read]
  split
  · exact hf _
  · intro h
    cases h

/-- A round that changes neither the stack nor the number of elements. -/
lemma adds_none {l' : Locals} (hsame : l'.stack = l₀.stack ∧ l'.depth = l₀.depth ∧
    l'.elts = l₀.elts) (hs : l'.state ≠ .unknown) : Adds l₀ (.ok l') :=
  ⟨hsame.2.1, hs, .inl ⟨hsame.2.2, hsame.1⟩⟩

lemma link_cases {x : Sexp} (hx : l.sx = [x]) :
    (link l = none ∧ l.stack.levels = []) ∨ link l = some { l with stack := addTop x l.stack } := by
  rw [link, addTop]
  cases h : l.stack.levels with
  | nil => exact .inl ⟨rfl, rfl⟩
  | cons top rest => exact .inr (by rw [hx])

/-- A round that completes the atom `x` and puts it on the stack. -/
lemma adds_one {x : Sexp} {l' : Locals} (hs : l'.stack = addTop x l₀.stack)
    (hsame : l'.depth = l₀.depth ∧ l'.elts = l₀.elts + 1) (hstate : l'.state ≠ .unknown) :
    Adds l₀ (.ok l') :=
  ⟨hsame.1, hstate, .inr ⟨x, hsame.2, hs⟩⟩

/-- A round that returns an atom from an empty stack. -/
lemma adds_return {ls : List Sexp} (hempty : l.stack.levels = [])
    (hsame : l.stack = l₀.stack ∧ l.depth = l₀.depth) (hstate : l.state ≠ .unknown) :
    Adds l₀ (.error (l.save .ok ls)) :=
  ⟨hsame.2, hsame.1, hsame.1 ▸ hempty, hstate, rfl⟩

lemma adds_state1 (h : env.Succeeds) (hs : l.state = .s1) : Adds l (state1 env c l) := by
  rw [state1]
  split_ifs
  · exact adds_none ⟨rfl, rfl, rfl⟩ (by simp [hs])
  · exact adds_none ⟨rfl, rfl, rfl⟩ (by simp)
  · rw [fire_eq]
    exact adds_none ⟨rfl, rfl, rfl⟩ (by simp)
  · exact adds_none ⟨rfl, rfl, rfl⟩ (by simp)
  · exact adds_none ⟨rfl, rfl, rfl⟩ (by simp)
  · exact adds_none ⟨rfl, rfl, rfl⟩ (by simp)
  · refine calm_writeCur.adds ?_
    rintro l₁ ⟨hstack₁, hdepth₁, helts₁, -⟩
    refine (calm_grow h).adds ?_
    rintro l₂ ⟨hstack₂, hdepth₂, helts₂, -⟩
    refine adds_none ⟨hstack₂.trans hstack₁, hdepth₂.trans hdepth₁, helts₂.trans helts₁⟩ ?_
    dsimp only
    split_ifs <;> simp

lemma afterBare_frame : (afterBare c l).stack = l.stack ∧ (afterBare c l).depth = l.depth ∧
    (afterBare c l).elts = l.elts ∧ (afterBare c l).state ≠ .unknown := by
  rw [afterBare]
  split_ifs <;> simp

lemma adds_writeCur_fault {f : Locals → Exec Locals} (hlt : ¬ l.vcur < l.val.length) :
    Adds l₀ (writeCur c l >>= f) := by
  rw [writeCur, if_neg hlt]
  intro h
  cases h

lemma adds_endBare (h : env.Succeeds) : Adds l (endBare env c l) := by
  by_cases hlt : l.vcur < l.val.length
  · rw [endBare_eq h hlt]
    rcases link_cases (l := emitted env (bareType l) (terminated l)) rfl with ⟨hlink, hempty⟩ | hlink
    · rw [hlink]
      exact adds_return hempty ⟨rfl, rfl⟩ (by simp)
    · rw [hlink]
      obtain ⟨hs, hd, he, hstate⟩ := afterBare_frame
      exact adds_one hs ⟨hd, he⟩ hstate
  · exact adds_writeCur_fault hlt

lemma adds_state4 (h : env.Succeeds) (hs : l.state = .s4) : Adds l (state4 env c l) := by
  rw [state4]
  split_ifs
  · refine calm_overwrite.mono ?_ fun _ h => h.elim
    rintro l' ⟨hstack, hdepth, helts, hstate⟩
    exact ⟨hdepth, by simp [hstate, hs], .inl ⟨helts, hstack⟩⟩
  · refine (calm_storeEsc h).adds ?_
    rintro l' ⟨hstack, hdepth, helts, hstate⟩
    exact adds_none ⟨hstack, hdepth, helts⟩ (by simp [hstate, hs])
  · exact adds_endBare h

lemma adds_endQuoted (h : env.Succeeds) (hl : l.stack = l₀.stack ∧ l.depth = l₀.depth ∧
    l.elts = l₀.elts) (hs : l.state = .s6) : Adds l₀ (endQuoted env l) := by
  obtain ⟨hstack₀, hdepth₀, helts₀⟩ := hl
  have hcalm := @calm_closingQuote env l h
  cases hq : closingQuote env l with
  | error stop =>
    rw [hq] at hcalm
    rw [endQuoted, hq]
    cases stop with
    | ret r => exact hcalm.elim
    | fault f => exact hcalm
  | ok l' =>
    rw [hq] at hcalm
    obtain ⟨hstack, hdepth, helts, hstate⟩ := hcalm
    by_cases hlt : l'.vcur < l'.val.length
    · rw [endQuoted_eq h hq hlt]
      rcases link_cases (l := emitted env (quotedType l') { terminated l' with squoted := false })
        rfl with ⟨hlink, hempty⟩ | hlink
      · rw [hlink]
        exact adds_return hempty ⟨hstack.trans hstack₀, hdepth.trans hdepth₀⟩ (by simp)
      · rw [hlink]
        refine adds_one (congrArg (addTop _) (hstack.trans hstack₀))
          ⟨hdepth.trans hdepth₀, congrArg (· + 1) (helts.trans helts₀)⟩ ?_
        simp [emitted, hstate, hs]
    · rw [endQuoted, hq, ok_bind]
      exact adds_writeCur_fault hlt

lemma adds_state5Rest (h : env.Succeeds) (hl : l.stack = l₀.stack ∧ l.depth = l₀.depth ∧
    l.elts = l₀.elts) (hs : l.state = .s5) : Adds l₀ (state5Rest env c l) := by
  rw [state5Rest]
  split_ifs
  · exact adds_endQuoted h hl rfl
  · refine (calm_store h).adds ?_
    rintro l' ⟨hstack, hdepth, helts, hstate⟩
    exact adds_none ⟨hstack.trans hl.1, hdepth.trans hl.2.1, helts.trans hl.2.2⟩ (by simp [hstate, hs])

lemma adds_state5 (h : env.Succeeds) (hs : l.state = .s5) : Adds l (state5 env c l) := by
  rw [state5]
  split_ifs
  · refine calm_overwrite.adds ?_
    rintro l' ⟨hstack, hdepth, helts, hstate⟩
    apply calm_read
    intro c
    exact adds_state5Rest h ⟨hstack, hdepth, helts⟩ (hstate.trans hs)
  · exact adds_state5Rest h ⟨rfl, rfl, rfl⟩ hs

lemma adds_state7 (h : env.Succeeds) : Adds l (state7 env c l) := by
  rw [state7]
  split_ifs
  · refine (calm_store h).adds ?_
    rintro l' ⟨hstack, hdepth, helts, hstate⟩
    exact adds_none ⟨hstack, hdepth, helts⟩ (by simp [hstate])
  · exact adds_none ⟨rfl, rfl, rfl⟩ (by simp)
  · exact adds_none ⟨rfl, rfl, rfl⟩ (by simp)

lemma adds_endQuotedList (h : env.Succeeds) (hl : l.stack = l₀.stack ∧ l.depth = l₀.depth ∧
    l.elts = l₀.elts) (hs : l.state = .s1) : Adds l₀ (endQuotedList env l) := by
  obtain ⟨hstack, hdepth, helts⟩ := hl
  by_cases hlt : l.vcur < l.val.length
  · rw [endQuotedList_eq h hlt]
    rcases link_cases (l := emitted env .squote (terminatedList l)) rfl with ⟨hlink, hempty⟩ | hlink
    · rw [hlink]
      exact adds_return hempty ⟨hstack, hdepth⟩ (by simp)
    · rw [hlink]
      exact adds_one (congrArg (addTop _) hstack) ⟨hdepth, congrArg (· + 1) helts⟩
        (by simp [emitted, terminatedList, hs])
  · exact adds_writeCur_fault hlt

lemma adds_state9 (h : env.Succeeds) (hl : l.stack = l₀.stack ∧ l.depth = l₀.depth ∧
    l.elts = l₀.elts) : Adds l₀ (state9 env l) := by
  rw [state9]
  split_ifs
  · exact adds_endQuotedList h hl rfl
  · exact adds_none hl (by simp)

lemma adds_state8 (h : env.Succeeds) (hs : l.state = .s8) : Adds l (state8 env c l) := by
  have hcount : (countParen c l).stack = l.stack ∧ (countParen c l).depth = l.depth ∧
      (countParen c l).elts = l.elts ∧ (countParen c l).state ≠ .unknown := by
    rw [countParen]
    split_ifs <;> simp [hs]
  obtain ⟨hstack₀, hdepth₀, helts₀, hstate₀⟩ := hcount
  rw [state8]
  refine (calm_storeEsc h).adds ?_
  rintro l' ⟨hstack, hdepth, helts, hstate⟩
  dsimp only
  split_ifs
  · exact adds_state9 h ⟨hstack.trans hstack₀, hdepth.trans hdepth₀, helts.trans helts₀⟩
  · refine adds_none ⟨hstack.trans hstack₀, hdepth.trans hdepth₀, helts.trans helts₀⟩ ?_
    rw [hstate]
    exact hstate₀

/-- States that only store the byte and move on. -/
lemma adds_storeEsc (h : env.Succeeds) (hl : l.stack = l₀.stack ∧ l.depth = l₀.depth ∧
    l.elts = l₀.elts) {f : Locals → Locals} (hf : ∀ l', (f l').stack = l'.stack ∧
      (f l').depth = l'.depth ∧ (f l').elts = l'.elts ∧
      (l'.state = l.state → (f l').state ≠ .unknown)) :
    Adds l₀ (storeEsc env c l >>= fun l => .ok (f l)) := by
  refine (calm_storeEsc h).adds ?_
  rintro l' ⟨hstack, hdepth, helts, hstate⟩
  obtain ⟨hfs, hfd, hfe, hfu⟩ := hf l'
  exact adds_none ⟨hfs.trans (hstack.trans hl.1), hfd.trans (hdepth.trans hl.2.1),
    hfe.trans (helts.trans hl.2.2)⟩ (hfu hstate)

lemma adds_state10 (h : env.Succeeds) (hs : l.state = .s10) : Adds l (state10 env c l) := by
  rw [state10]
  split_ifs
  all_goals
    refine adds_storeEsc h ⟨rfl, rfl, rfl⟩ ?_
    intro l'
    refine ⟨rfl, rfl, rfl, ?_⟩
    simp +contextual [hs]

lemma adds_state11 : Adds l (state11 c l) := by
  rw [state11]
  refine adds_none ⟨rfl, rfl, rfl⟩ ?_
  dsimp only
  split_ifs <;> simp

lemma adds_state12 (h : env.Succeeds) : Adds l (state12 env c l) := by
  rw [state12]
  split_ifs
  · exact adds_storeEsc h ⟨rfl, rfl, rfl⟩ fun l' => ⟨rfl, rfl, rfl, by simp⟩
  · exact adds_none ⟨rfl, rfl, rfl⟩ (by simp)

lemma adds_state13 (h : env.Succeeds) : Adds l (state13 env c l) := by
  rw [state13]
  split_ifs
  · exact adds_storeEsc h ⟨rfl, rfl, rfl⟩ fun l' => ⟨rfl, rfl, rfl, by simp⟩
  · exact adds_none ⟨rfl, rfl, rfl⟩ (by simp)

lemma adds_state14 (h : env.Succeeds) (hs : l.state = .s14) : Adds l (state14 env c l) := by
  rw [state14]
  split_ifs
  · rw [endSize]
    refine calm_writeCur.adds ?_
    rintro l' ⟨hstack, hdepth, helts, hstate⟩
    dsimp only
    split_ifs
    · rw [need_ok h]
      exact adds_none ⟨hstack, hdepth, helts⟩ (by simp [hstate])
    · exact adds_none ⟨hstack, hdepth, helts⟩ (by simp [hstate])
  · exact adds_storeEsc h ⟨rfl, rfl, rfl⟩ fun l' => ⟨rfl, rfl, rfl, by simp +contextual [hs]⟩

lemma calm_readBlob : Calm l (readBlob env l) := by
  rw [readBlob]
  split_ifs
  · rw [Env.read]
    split
    · rw [ok_bind]
      split
      · intro h
        cases h
      · split_ifs
        · exact ⟨rfl, rfl, rfl, rfl⟩
        · intro h
          cases h
    · intro h
      cases h
  · exact ⟨rfl, rfl, rfl, rfl⟩

/-- The blob is left in `sx` when there is no level to put it on. -/
lemma adds_getD {x : Sexp} (hx : l.sx = [x]) (hl : l.stack = l₀.stack ∧ l.depth = l₀.depth ∧
    l.elts = l₀.elts + 1) (hs : l.state ≠ .unknown) : Adds l₀ (.ok ((link l).getD l)) := by
  obtain ⟨hstack, hdepth, helts⟩ := hl
  rcases link_cases hx with ⟨hlink, hempty⟩ | hlink
  · rw [hlink]
    refine adds_one (x := x) ?_ ⟨hdepth, helts⟩ hs
    rw [addTop, ← hstack, hempty]
    rfl
  · rw [hlink]
    exact adds_one (congrArg (addTop x) hstack) ⟨hdepth, helts⟩ hs

lemma adds_endBlob (h : env.Succeeds) (hl : l.stack = l₀.stack ∧ l.depth = l₀.depth ∧
    l.elts = l₀.elts) : Adds l₀ (endBlob env l) := by
  rw [endBlob]
  simp only [need_ok h, ok_bind, fire_eq]
  exact adds_getD rfl ⟨hl.1, hl.2.1, congrArg (· + 1) hl.2.2⟩ (by simp)

lemma adds_state15 (h : env.Succeeds) (hs : l.state = .s15) : Adds l (state15 env l) := by
  rw [state15]
  refine calm_readBlob.adds ?_
  rintro l' ⟨hstack, hdepth, helts, hstate⟩
  split_ifs
  · exact adds_endBlob h ⟨hstack, hdepth, helts⟩
  · exact adds_none ⟨hstack, hdepth, helts⟩ (by simp [hstate, hs])

/-- Every round but those of the parens. -/
lemma adds_switch (h : env.Succeeds) (hs : l.state ≠ .unknown) (hs2 : l.state ≠ .s2)
    (hs3 : l.state ≠ .s3) : Adds l (switch env c l) := by
  rw [switch]
  cases hstate : l.state with
  | s1 => exact adds_state1 h hstate
  | s2 => exact absurd hstate hs2
  | s3 => exact absurd hstate hs3
  | s4 => exact adds_state4 h hstate
  | s5 => exact adds_state5 h hstate
  | s6 => exact adds_none ⟨rfl, rfl, rfl⟩ (by simp)
  | s7 => exact adds_state7 h
  | s8 => exact adds_state8 h hstate
  | s9 => exact adds_state9 h ⟨rfl, rfl, rfl⟩
  | s10 => exact adds_state10 h hstate
  | s11 => exact adds_state11
  | s12 => exact adds_state12 h
  | s13 => exact adds_state13 h
  | s14 => exact adds_state14 h hstate
  | s15 => exact adds_state15 h hstate
  | unknown => exact absurd hstate hs

end Rounds

/-- The stack holds the open lists `L`, and its levels are the chains `A` of nodes. -/
structure StackShape (l : Regs) (s : Links) (L : List (List Sexp)) (A : List (List Nat)) :
    Prop where
  state : l.state ≠ .unknown
  stack : StackOk l.stack L
  depth : l.depth = L.length
  chained : Chained s A
  lengths : A.map List.length = l.stack.levels.map List.length

def Shaped (l : Regs) (s : Links) : Prop := ∃ L A, StackShape l s L A

/-- What a return leaves behind. -/
structure ShapedReturn (r : Return) (s : Links) : Prop where
  shaped : Shaped r.cc.toRegs s
  errno : r.errno ≠ .badStack ∧ r.errno ≠ .unknownState
  empty : r.cc.lastSexp ≠ [] → r.cc.stack.levels = []

/-- A round keeps the shape and does not dereference `NULL`. -/
def KeepsShape : Except (Stop × Links) (Locals × Links) → Prop
  | .ok (l, s) => Shaped l.toRegs s
  | .error (.ret r, s) => ShapedReturn r s
  | .error (.fault f, _) => f ≠ .nullPointer

section Step

variable {env : Env} {l : Locals} {s : Links} {L : List (List Sexp)} {A : List (List Nat)}

/-- A piece of a round that ends in the shape, with the pointers `s`. -/
abbrev Shapes (s : Links) : Exec Locals → Prop :=
  Post (fun l => Shaped l.toRegs s) (fun r => ShapedReturn r s) (· ≠ .nullPointer)

lemma KeepsShape.of_round {s' : Links} (hround : s.round env l = some s')
    (hx : Shapes s' (cparseHead env l)) : KeepsShape (linkHead env (l, s)) := by
  rw [linkHead, hround]
  match cparseHead env l, hx with
  | .ok _, hx => exact hx
  | .error (.ret _), hx => exact hx
  | .error (.fault _), hx => exact hx

lemma StackShape.chains_nil (hi : StackShape l.toRegs s [] A) : A = [] := by
  have hlen := hi.lengths
  rw [hi.stack.levels] at hlen
  simpa [openLevels] using hlen

lemma StackShape.chains_cons {T : List Sexp} {Ls : List (List Sexp)}
    (hi : StackShape l.toRegs s (T :: Ls) A) :
    ∃ ns U A', A = ns :: U :: A' ∧ ns.length = T.length ∧
      (U :: A').map List.length = ((openLevels (T :: Ls)).tail).map List.length := by
  have hlen := hi.lengths
  rw [hi.stack.levels] at hlen
  match A, hlen with
  | [ns], hlen => simp [openLevels] at hlen
  | ns :: U :: A', hlen =>
    obtain ⟨hhead, htail⟩ := List.cons.inj hlen
    exact ⟨ns, U, A', rfl, hhead, htail⟩

/-- The shape after an atom was put on the stack. -/
lemma shaped_add {l' : Locals} {x : Sexp} (hi : StackShape l.toRegs s L A)
    (hs : l'.state ≠ .unknown) (hd : l'.depth = l.depth) (hstack : l'.stack = addTop x l.stack) :
    ∃ s', s.attach = some s' ∧ Shaped l'.toRegs s' := by
  have hlevels := hi.stack.levels
  cases L with
  | nil =>
    obtain rfl := hi.chains_nil
    have hnone : s.levels = [] := List.forall₂_nil_right_iff.mp hi.chained.spans
    have hsame : l'.stack = l.stack := by rw [hstack, addTop, hlevels]; rfl
    refine ⟨s.alloc false, by simp [Links.attach, hnone], [], [], hs, ?_, ?_, ?_, ?_⟩
    · rw [hsame]
      exact hi.stack
    · rw [hd]
      exact hi.depth
    · exact chained_empty hnone
    · rw [hsame, hlevels]
      rfl
  | cons T Ls =>
    obtain ⟨ns, U, A', rfl, hns, htail⟩ := hi.chains_cons
    obtain ⟨s', hattach, hchained⟩ := attach_ok hi.chained
    have hnew : l'.stack.levels = openLevels ((T ++ [x]) :: Ls) := by
      rw [hstack, addTop, hlevels]
      rfl
    refine ⟨s', hattach, (T ++ [x]) :: Ls, _, hs, ⟨hnew, ?_⟩, ?_, hchained, ?_⟩
    · have hheight := hi.stack.height
      rw [hnew, hstack, addTop, hlevels]
      rw [hlevels] at hheight
      simpa [openLevels] using hheight
    · rw [hd, hi.depth]
      simp
    · rw [hnew]
      simp only [openLevels, List.tail_cons, List.map_cons, List.length_append, hns] at htail ⊢
      rw [← htail]
      simp

/-- Open paren: a level above the list that was opened. -/
lemma shape_state2 (h : env.Succeeds) (hi : StackShape l.toRegs s L A) :
    ∃ s', s.openList = some s' ∧ Shapes s' (state2 env l) := by
  obtain ⟨st, k, hrun, hok⟩ := state2_ok h hi.stack
  have hdepth : l.depth + 1 = ([] :: L).length := by simp [hi.depth]
  cases L with
  | nil =>
    obtain rfl := hi.chains_nil
    obtain ⟨s', hopen, hchained⟩ := openList_first hi.chained
    rw [hrun]
    refine ⟨s', hopen, _, _, by simp, hok, hdepth, hchained, ?_⟩
    dsimp only
    rw [hok.levels]
    rfl
  | cons T Ls =>
    obtain ⟨ns, U, A', rfl, hns, htail⟩ := hi.chains_cons
    obtain ⟨s', hopen, hchained⟩ := openList_inner hi.chained
    rw [hrun]
    refine ⟨s', hopen, _, _, by simp, hok, hdepth, hchained, ?_⟩
    dsimp only
    rw [hok.levels]
    simpa [openLevels, hns] using htail

/-- Close paren of an inner list. -/
lemma shape_state3_inner {T T' : List Sexp} {Ls : List (List Sexp)}
    (hi : StackShape l.toRegs s (T :: T' :: Ls) A) :
    ∃ s', s.closeList = some s' ∧ Shapes s' (state3 l) := by
  obtain ⟨st, hrun, hok⟩ := state3_inner hi.stack hi.depth
  obtain ⟨ns, U, A', rfl, -, htail⟩ := hi.chains_cons
  obtain ⟨s', hclose, hchained⟩ := closeList_ok hi.chained
  rw [hrun]
  refine ⟨s', hclose, _, _, by simp, hok, by simp, hchained, ?_⟩
  dsimp only
  rw [htail, hok.levels]
  simp [openLevels]

/-- Close paren of the outermost list: the stack is emptied. -/
lemma shape_state3_outer {T : List Sexp} (hi : StackShape l.toRegs s [T] A) :
    ∃ s', s.closeList = some s' ∧ Shapes s'.popAll (state3 l) := by
  obtain ⟨st, hrun, hok⟩ := state3_outer hi.stack hi.depth
  obtain ⟨ns, U, A', rfl, -, -⟩ := hi.chains_cons
  obtain ⟨s', hclose, -⟩ := closeList_ok hi.chained
  have hempty : st.levels = [] := hok.levels
  rw [hrun]
  refine ⟨s', hclose, ⟨[], [], by simp, hok, rfl, chained_empty rfl, ?_⟩, by simp, fun _ => hempty⟩
  dsimp only
  rw [hempty]
  rfl

/-- Close paren with no list open. -/
lemma shape_state3_bad (hi : StackShape l.toRegs s [] A) : Shapes s (state3 l) := by
  rw [state3_bad hi.depth]
  refine ⟨⟨[], A, by simp, hi.stack, hi.depth, hi.chained, hi.lengths⟩, by simp, fun h => ?_⟩
  exact absurd rfl h

lemma shape_state3 (hi : StackShape l.toRegs s L A) :
    ∃ s', (if l.depth = 0 then some s
        else do
          let s ← s.closeList
          some (if l.depth = 1 then s.popAll else s)) = some s' ∧ Shapes s' (state3 l) := by
  match L, hi with
  | [], hi =>
    have hd : l.depth = 0 := hi.depth
    exact ⟨s, by simp [hd], shape_state3_bad hi⟩
  | [T], hi =>
    have hd : l.depth = 1 := hi.depth
    obtain ⟨s', hclose, hrun⟩ := shape_state3_outer hi
    exact ⟨_, by simp [hd, hclose], hrun⟩
  | T :: T' :: Ls, hi =>
    have hd : l.depth = Ls.length + 2 := hi.depth
    obtain ⟨s', hclose, hrun⟩ := shape_state3_inner hi
    exact ⟨s', by simp [hd, hclose], hrun⟩

/-- The code after the loop. -/
lemma shape_finish (hi : StackShape l.toRegs s L A) :
    Shapes (if l.depth = 0 ∧ 0 < l.elts then s.popAll else s) (.error (finish env l)) := by
  rw [finish]
  split_ifs with hexit
  · obtain rfl : L = [] := List.length_eq_zero_iff.mp (hi.depth.symm.trans hexit.1)
    have hlevels : l.stack.levels = [] := hi.stack.levels
    have hheight : l.stack.height = 0 := by
      rw [hi.stack.height, hlevels]
      rfl
    rw [returnTree, hlevels, popAll]
    exact ⟨⟨[], [], by simp, ⟨rfl, hheight⟩, hexit.1, chained_empty rfl, rfl⟩, by simp,
      fun _ => rfl⟩
  · split
    · intro h
      cases h
    · exact ⟨⟨L, A, hi.state, hi.stack, hi.depth, hi.chained, hi.lengths⟩, by simp,
        fun h => absurd rfl h⟩

lemma head_of_leaves (h : Links.leaves env l = true) :
    cparseHead env l = .error (finish env l) ∨ cparseHead env l = .error (.fault .input) := by
  rw [Links.leaves, Bool.or_eq_true, beq_iff_eq, Bool.and_eq_true, bne_iff_ne, beq_iff_eq] at h
  rw [cparseHead, Env.read]
  by_cases h15 : l.state = .s15
  · have ht : l.t = env.len := by tauto
    exact .inl (by rw [if_pos h15, if_pos ht])
  · rw [if_neg h15]
    cases hb : env.buf[l.t]? with
    | none => exact .inr rfl
    | some c =>
      have hend : c = nul ∨ l.t = env.len := by
        rcases h with h | ⟨-, h⟩
        · exact .inr h
        · exact .inl (Option.some.inj (hb.symm.trans h))
      exact .inl (by rw [ok_bind, if_pos hend])

lemma head_of_stays (h : Links.leaves env l = false) :
    (∃ c, cparseHead env l = switch env c l) ∨ cparseHead env l = .error (.fault .input) := by
  rw [Links.leaves, Bool.or_eq_false_iff, beq_eq_false_iff_ne] at h
  obtain ⟨ht, hnul⟩ := h
  rw [cparseHead, Env.read]
  by_cases h15 : l.state = .s15
  · refine .inl ⟨nul, ?_⟩
    rw [if_pos h15, if_neg ht, switch, h15]
  · rw [if_neg h15]
    cases hb : env.buf[l.t]? with
    | none => exact .inr rfl
    | some c =>
      have hc : c ≠ nul := by
        rintro rfl
        simp [h15, hb] at hnul
      exact .inl ⟨c, by rw [ok_bind, if_neg (by simp [hc, ht])]⟩

/-- What the rounds outside the parens do to the shape. -/
lemma shape_adds {x : Exec Locals} (hadds : Adds l x) (hi : StackShape l.toRegs s L A) :
    ∃ s', (match x with
        | .ok l' => if l.elts < l'.elts then s.attach else some s
        | .error _ => some s) = some s' ∧ Shapes s' x := by
  match x, hadds with
  | .ok l', hadds =>
    obtain ⟨hd, hs, hsame | ⟨x, helts, hstack⟩⟩ := hadds
    · refine ⟨s, by simp [hsame.1], L, A, hs, ?_, hd.trans hi.depth, hi.chained, ?_⟩
      · rw [hsame.2]
        exact hi.stack
      · rw [hsame.2]
        exact hi.lengths
    · obtain ⟨s', hattach, hshaped⟩ := shaped_add hi hs hd hstack
      exact ⟨s', by simp [helts, hattach], hshaped⟩
  | .error (.ret r), hadds =>
    obtain ⟨hd, hstack, hempty, hs, hok⟩ := hadds
    refine ⟨s, rfl, ⟨L, A, hs, ?_, hd.trans hi.depth, hi.chained, ?_⟩, by simp [hok], fun _ => ?_⟩
    · rw [hstack]
      exact hi.stack
    · rw [hstack]
      exact hi.lengths
    · rw [hstack]
      exact hempty
  | .error (.fault f), hadds => exact ⟨s, rfl, hadds⟩

/-- A round that does not leave the loop keeps the shape of the pieces of its state. -/
lemma shapes_of_stays {s' : Links} (hleave : Links.leaves env l = false)
    (h : ∀ c, Shapes s' (switch env c l)) : Shapes s' (cparseHead env l) := by
  rcases head_of_stays hleave with ⟨c, hrun⟩ | hrun
  · rw [hrun]
    exact h c
  · rw [hrun]
    intro h
    cases h

lemma adds_of_stays (h : env.Succeeds) (hleave : Links.leaves env l = false)
    (hs : l.state ≠ .unknown) (hs2 : l.state ≠ .s2) (hs3 : l.state ≠ .s3) :
    Adds l (cparseHead env l) := by
  rcases head_of_stays hleave with ⟨c, hrun⟩ | hrun
  · rw [hrun]
    exact adds_switch h hs hs2 hs3
  · rw [hrun]
    intro h
    cases h

/-- One round keeps the shape. -/
lemma shape_linkHead (h : env.Succeeds) (hi : Shaped l.toRegs s) :
    KeepsShape (linkHead env (l, s)) := by
  obtain ⟨L, A, hi⟩ := hi
  cases hleave : Links.leaves env l with
  | true =>
    apply KeepsShape.of_round (by rw [Links.round, if_pos hleave])
    rcases head_of_leaves hleave with hrun | hrun
    · rw [hrun]
      exact shape_finish hi
    · rw [hrun]
      intro h
      cases h
  | false =>
    have hstay : ¬ Links.leaves env l = true := by simp [hleave]
    by_cases hs2 : l.state = .s2
    · obtain ⟨s', hopen, hrun⟩ := shape_state2 h hi
      have hround : s.round env l = some s' := by
        rw [Links.round, if_neg hstay, hs2]
        exact hopen
      refine KeepsShape.of_round hround (shapes_of_stays hleave ?_)
      intro c
      rwa [switch, hs2]
    · by_cases hs3 : l.state = .s3
      · obtain ⟨s', hs', hrun⟩ := shape_state3 hi
        have hround : s.round env l = some s' := by
          rw [Links.round, if_neg hstay, hs3]
          exact hs'
        refine KeepsShape.of_round hround (shapes_of_stays hleave ?_)
        intro c
        rwa [switch, hs3]
      · obtain ⟨s', hs', hrun⟩ := shape_adds (adds_of_stays h hleave hi.state hs2 hs3) hi
        refine KeepsShape.of_round ?_ hrun
        rw [Links.round, if_neg hstay, ← hs']
        cases hstate : l.state with
        | s2 => exact absurd hstate hs2
        | s3 => exact absurd hstate hs3
        | _ => rfl

end Step

/-- A round of the tree-building parser in which every allocation succeeds. -/
def ParserCall (env : Env) (l : Locals) : Prop := env.Succeeds ∧ l.mode ≠ .eventsOnly

section Runs

variable {cc : Pcont} {k : Call} {allocs : Nat} {l : Locals}

/-- The loop of a call is that of the tree-building parser. -/
lemma head_of_parserCall
    (hrun : Loop.ReachesWhile (k.head cc) (ParserCall k.env) (cc.enter allocs) l)
    (hlast : ParserCall k.env l) : cc.mode ≠ .eventsOnly ∧ k.head cc = cparseHead k.env := by
  have hmode : cc.mode ≠ .eventsOnly := by
    rcases Relation.ReflTransGen.cases_head hrun with rfl | ⟨_, ⟨hfirst, -⟩, -⟩
    · exact hlast.2
    · exact hfirst.2
  exact ⟨hmode, by rw [Call.head, if_neg hmode]⟩

lemma linkHead_of_ok {env : Env} {l l' : Locals} {s : Links} (h : env.Succeeds)
    (hi : Shaped l.toRegs s) (hrun : cparseHead env l = .ok l') :
    ∃ s', linkHead env (l, s) = .ok (l', s') ∧ Shaped l'.toRegs s' := by
  have hk := shape_linkHead h hi
  rw [linkHead, hrun] at hk ⊢
  cases hround : s.round env l with
  | none =>
    rw [hround] at hk
    exact absurd rfl hk
  | some s' =>
    rw [hround] at hk
    exact ⟨s', rfl, hk⟩

lemma linkHead_of_error {env : Env} {l : Locals} {s : Links} {stop : Stop} (h : env.Succeeds)
    (hi : Shaped l.toRegs s) (hrun : cparseHead env l = .error stop) :
    ∃ s', linkHead env (l, s) = .error (stop, s') ∧ KeepsShape (.error (stop, s')) := by
  have hk := shape_linkHead h hi
  rw [linkHead, hrun] at hk ⊢
  cases hround : s.round env l with
  | none =>
    rw [hround] at hk
    exact absurd rfl hk
  | some s' =>
    rw [hround] at hk
    exact ⟨s', rfl, hk⟩

/-- The pointers run along with the rounds of a call. -/
lemma reaches_linkHead {l₀ : Locals} {s : Links} (hi : Shaped l₀.toRegs s)
    (hrun : Loop.ReachesWhile (cparseHead k.env) (ParserCall k.env) l₀ l) :
    ∃ s', Loop.Reaches (linkHead k.env) (l₀, s) (l, s') ∧ Shaped l.toRegs s' := by
  induction hrun with
  | refl => exact ⟨s, .refl, hi⟩
  | tail _ hstep ih =>
    obtain ⟨s₁, hreach, hshape⟩ := ih
    obtain ⟨hcall, hnext⟩ := hstep
    obtain ⟨s₂, hlink, hshape'⟩ := linkHead_of_ok hcall.1 hshape hnext
    exact ⟨s₂, hreach.tail hlink, hshape'⟩

lemma shaped_new (g : Setup) : Shaped (Pcont.new g).toRegs ⟨[], []⟩ :=
  ⟨[], [], ⟨by simp [Pcont.new], stackOk_makeStack, rfl, chained_empty rfl, rfl⟩⟩

/-- Every continuation of a client has its pointers. -/
lemma linkSession_of_session (h : Session ParserCall cc) :
    ∃ s, LinkSession cc s ∧ Shaped cc.toRegs s := by
  induction h with
  | start h =>
    refine ⟨_, .start h, ?_⟩
    rw [(initContinuation_eq_new h).1]
    exact shaped_new _
  | configure _ mode handlers ih =>
    obtain ⟨s, hs, L, A, hi⟩ := ih
    exact ⟨s, hs.configure mode handlers, L, A, hi.state, hi.stack, hi.depth, hi.chained, hi.lengths⟩
  | call _ hrun hlast hret ih =>
    obtain ⟨s, hs, hi⟩ := ih
    obtain ⟨hmode, hhead⟩ := head_of_parserCall hrun hlast
    rw [hhead] at hrun hret
    obtain ⟨s', hreach, hi'⟩ := reaches_linkHead hi hrun
    obtain ⟨s'', hlink, hk⟩ := linkHead_of_error hlast.1 hi' hret
    exact ⟨s'', hs.call hmode hlast.1 hreach hlink, hk.shaped⟩

/-- The stack, its levels and their pointers at a loop head. -/
structure ParseStack (l : Locals) (s : Links) : Prop where
  empty : l.depth = 0 ↔ l.stack.levels = []
  count : 0 < l.depth → l.stack.levels.length = l.depth + 1
  height : l.stack.height = l.stack.levels.length
  bottom : ∀ level, l.stack.levels.getLast? = some level → level.length = 1
  opens : ∀ level ∈ l.stack.levels.tail, level.getLast? = some (.list [])
  pointers : ∃ A, A.map List.length = l.stack.levels.map List.length ∧
    List.Forall₂ (LevelSpans s) s.levels A ∧ ∀ ns ∈ A.tail, OpenEnd s ns

lemma Shaped.parseStack {s : Links} (h : Shaped l.toRegs s) : ParseStack l s := by
  obtain ⟨L, A, hi⟩ := h
  have hlevels := hi.stack.levels
  have hdepth := hi.depth
  refine ⟨?_, ?_, hi.stack.height, ?_, ?_, A, hi.lengths, hi.chained.spans, hi.chained.opens⟩
  · rw [hlevels, hdepth]
    cases L <;> simp [openLevels]
  · rw [hlevels, hdepth]
    cases L <;> simp [openLevels]
  · intro level hlast
    rw [hlevels] at hlast
    cases L with
    | nil => cases hlast
    | cons T Ls =>
      rw [openLevels, List.getLast?_cons, List.getLast?_concat, Option.getD_some] at hlast
      obtain rfl := Option.some.inj hlast
      rfl
  · intro level hmem
    rw [hlevels] at hmem
    cases L with
    | nil => cases hmem
    | cons T Ls =>
      rw [openLevels, List.tail_cons, List.mem_append, List.mem_map, List.mem_singleton] at hmem
      rcases hmem with ⟨U, -, rfl⟩ | rfl
      · exact List.getLast?_concat
      · rfl

end Runs

end Sfsexp.Proofs
