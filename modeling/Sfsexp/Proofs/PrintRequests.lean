import Sfsexp.Proofs.BufferPrinting
import Sfsexp.Proofs.Copying
import Sfsexp.Proofs.Emission
import Sfsexp.Spec.PrintRequests

/-!
# The loop of `print_sexp_cstr` when memory runs out

A growth that fails makes the string `NULL`, and `NULL` it stays. A level that fails leaves the printer
at its list, so that the paren is printed once more and the text gets too long. The loop either gets
all that it asks for, or its text is lost.
-/

namespace Sfsexp.Proofs

open Sfsexp Spec

section Appending

variable {g : StringSetup} {a text : List Byte} {ps qs : List (List Byte)} {o o' : Output}
  {s : CString} {len : Nat}

/-- The string holds `text`, and its buffer has `len` bytes. -/
def HoldsIn (o : Output) (text : List Byte) (len : Nat) : Prop :=
  ∃ s, o.str = some s ∧ Contains s text ∧ s.len = len

/-- The pieces `ps`, one after the other. -/
def appendAll (g : StringSetup) : List (List Byte) → Output → Except Fault Output
  | [], o => .ok o
  | a :: ps, o => append g a o >>= appendAll g ps

lemma appendAll_append (ps qs : List (List Byte)) (o : Output) :
    appendAll g (ps ++ qs) o = appendAll g ps o >>= appendAll g qs := by
  induction ps generalizing o with
  | nil => rfl
  | cons a ps ih =>
    rw [List.cons_append, appendAll, appendAll]
    cases append g a o with
    | error f => rfl
    | ok o₁ => exact ih o₁

lemma saddch_part (c : Byte) : saddch g c o = appendAll g [[c]] o := by
  rw [appendAll, saddch]
  cases append g [c] o <;> rfl

lemma appendAll_none (ho : o.str = none) : appendAll g ps o = .ok o := by
  induction ps with
  | nil => rfl
  | cons a ps ih =>
    have hstay : append g a o = .ok o := by rw [append, ho]
    rw [appendAll, hstay]
    exact ih

/-- A piece is appended when the request it makes is granted; the string is lost otherwise. -/
lemma append_cases (ho : HoldsIn o text len) :
    (Granted g.toSetup (if text.length + a.length ≥ len then 1 else 0) o.allocs ∧
        ∃ o', append g a o = .ok o' ∧
          o'.allocs = o.allocs + (if text.length + a.length ≥ len then 1 else 0) ∧
          HoldsIn o' (text ++ a) (enlarged g.growsize text.length len a.length)) ∨
      (¬ Granted g.toSetup (if text.length + a.length ≥ len then 1 else 0) o.allocs ∧
        ∃ o', append g a o = .ok o' ∧ o'.str = none) := by
  obtain ⟨s, hs, hh, rfl⟩ := ho
  have hcells := hh.cells
  have hroom := hh.room
  have hpos := g.growsize_pos
  rw [← hh.curlen, append, hs]
  dsimp only
  by_cases hfull : s.curlen + a.length ≥ s.len
  · rw [if_pos hfull, if_pos hfull, granted_one]
    by_cases halloc : g.alloc o.allocs = true
    · obtain ⟨s', hwrite, hh'⟩ := @contains_write a text
        { s with base := s.base ++ g.fresh (g.growsize + a.length)
                 len := s.len + (g.growsize + a.length) } (by simp [hcells]) hh.curlen
        (by dsimp only; rw [List.take_append_of_le_length (by omega), hh.taken])
        (by dsimp only; omega)
      rw [if_pos halloc, hwrite]
      refine .inl ⟨halloc, _, rfl, rfl, s', rfl, hh', ?_⟩
      rw [enlarged, if_pos hfull]
      exact (write_len hwrite).1
    · rw [if_neg halloc]
      exact .inr ⟨halloc, _, rfl, rfl⟩
  · obtain ⟨s', hwrite, hh'⟩ := @contains_write a text s hcells hh.curlen hh.taken (by omega)
    rw [if_neg hfull, if_neg hfull, hwrite]
    refine .inl ⟨granted_zero, _, rfl, rfl, s', rfl, hh', ?_⟩
    rw [enlarged, if_neg hfull]
    exact (write_len hwrite).1

/-- The pieces are appended when all their requests are granted; the string is lost otherwise. -/
lemma appendAll_cases (ps : List (List Byte)) (ho : HoldsIn o text len) :
    (Granted g.toSetup (growths g.growsize text.length len ps) o.allocs ∧
        ∃ o', appendAll g ps o = .ok o' ∧
          o'.allocs = o.allocs + growths g.growsize text.length len ps ∧
          HoldsIn o' (text ++ ps.flatten) (capacity g.growsize text.length len ps)) ∨
      (¬ Granted g.toSetup (growths g.growsize text.length len ps) o.allocs ∧
        ∃ o', appendAll g ps o = .ok o' ∧ o'.str = none) := by
  induction ps generalizing o text len with
  | nil => exact .inl ⟨granted_zero, o, rfl, rfl, by simpa [capacity] using ho⟩
  | cons a ps ih =>
    rw [growths, capacity, appendAll, granted_add]
    rcases append_cases (a := a) ho with ⟨hgot, o₁, hrun, hallocs, ho₁⟩ | ⟨hdenied, o₁, hrun, hnone⟩
    · have hrest := ih ho₁
      rw [List.length_append, hallocs] at hrest
      rw [hrun, fault_bind, List.flatten_cons, ← List.append_assoc]
      apply hrest.imp
      · rintro ⟨hgots, o₂, hruns, hallocs₂, ho₂⟩
        exact ⟨⟨hgot, hgots⟩, o₂, hruns, by omega, ho₂⟩
      · rintro ⟨hdenied, hlost⟩
        exact ⟨fun hall => hdenied hall.2, hlost⟩
    · rw [hrun, fault_bind]
      exact .inr ⟨fun hall => hdenied hall.1, o₁, appendAll_none hnone, hnone⟩

lemma growths_append (grow used len : Nat) (ps qs : List (List Byte)) :
    growths grow used len (ps ++ qs) = growths grow used len ps +
      growths grow (used + ps.flatten.length) (capacity grow used len ps) qs := by
  induction ps generalizing used len with
  | nil => simp [growths, capacity]
  | cons a ps ih =>
    rw [List.cons_append, growths, growths, capacity, ih, List.flatten_cons, List.length_append]
    simp only [Nat.add_assoc]

lemma capacity_append (grow used len : Nat) (ps qs : List (List Byte)) :
    capacity grow used len (ps ++ qs) =
      capacity grow (used + ps.flatten.length) (capacity grow used len ps) qs := by
  induction ps generalizing used len with
  | nil => simp [capacity]
  | cons a ps ih =>
    rw [List.cons_append, capacity, capacity, ih, List.flatten_cons, List.length_append,
      Nat.add_assoc]

lemma growths_behind (grow : Nat) (text : List Byte) (len : Nat) {t : List Byte}
    (hflat : ps.flatten = t) (qs : List (List Byte)) :
    growths grow text.length len (ps ++ qs) = growths grow text.length len ps +
      growths grow (text ++ t).length (capacity grow text.length len ps) qs := by
  rw [growths_append, hflat, List.length_append]

lemma capacity_behind (grow : Nat) (text : List Byte) (len : Nat) {t : List Byte}
    (hflat : ps.flatten = t) (qs : List (List Byte)) :
    capacity grow text.length len (ps ++ qs) =
      capacity grow (text ++ t).length (capacity grow text.length len ps) qs := by
  rw [capacity_append, hflat, List.length_append]

/-- The string is lost, or it is `n` bytes longer than before. -/
def Longer (o o' : Output) (n : Nat) : Prop :=
  o'.str = none ∨ ∃ s t, o.str = some s ∧ o'.str = some t ∧ t.curlen = s.curlen + n

lemma longer_append (h : append g a o = .ok o') : Longer o o' a.length := by
  rw [append] at h
  cases hs : o.str with
  | none =>
    rw [hs] at h
    cases h
    exact .inl hs
  | some s =>
    rw [hs] at h
    dsimp only at h
    split_ifs at h
    · obtain ⟨t, hwrite, hrest⟩ := steps_of_bind h
      cases hrest
      exact .inr ⟨s, t, hs, rfl, (write_len hwrite).2⟩
    · cases h
      exact .inl rfl
    · obtain ⟨t, hwrite, hrest⟩ := steps_of_bind h
      cases hrest
      exact .inr ⟨s, t, hs, rfl, (write_len hwrite).2⟩

lemma Longer.trans {o'' : Output} {m n : Nat} (h : Longer o o' m) (h' : Longer o' o'' n) :
    Longer o o'' (m + n) := by
  obtain hnone | ⟨s', t, hs', ht, hlen'⟩ := h'
  · exact .inl hnone
  obtain hnone | ⟨s, t', hs, ht', hlen⟩ := h
  · rw [hnone] at hs'
    cases hs'
  · rw [hs'] at ht'
    cases ht'
    exact .inr ⟨s, t, hs, ht, by omega⟩

lemma longer_appendAll (h : appendAll g ps o = .ok o') : Longer o o' ps.flatten.length := by
  induction ps generalizing o with
  | nil =>
    obtain rfl : o = o' := Except.ok.inj h
    cases hs : o.str with
    | none => exact .inl hs
    | some s => exact .inr ⟨s, s, hs, hs, rfl⟩
  | cons a ps ih =>
    rw [appendAll] at h
    obtain ⟨o₁, hrun, hrest⟩ := steps_of_bind h
    rw [List.flatten_cons, List.length_append]
    exact (longer_append hrun).trans (ih hrest)

end Appending

section Atoms

variable {g : StringSetup} {val : List Byte} {aty : AtomT}

/-- The fields of an atom agree: a text has no `val` and counts no bytes, or it holds a C string that
`val_used` covers; a binary atom holds the bytes its length counts. -/
def SoundAtom : Sexp → Prop
  | .value aty val valAllocated valUsed =>
    (val = [] ∧ valAllocated = 0 ∧ valUsed = 0) ∨ Sealed (.value aty val valAllocated valUsed)
  | .blob bindata binlength => (bindata.getD []).length = binlength
  | .list _ => True

lemma bytewise_append (t u : List Byte) : bytewise (t ++ u) = bytewise t ++ bytewise u :=
  List.map_append

@[simp] lemma flatten_bytewise (t : List Byte) : (bytewise t).flatten = t := by
  induction t with
  | nil => rfl
  | cons c t ih => exact congrArg (c :: ·) ih

lemma printEscape_parts (c : Byte) (o : Output) :
    printEscape g aty c o = appendAll g
      (bytewise (if (c = dquote ∨ c = backslash) ∧ aty = .dquote then [backslash] else [])) o := by
  unfold printEscape
  split_ifs
  · exact saddch_part _
  · rfl

lemma printText_parts (hend : (cstr val).length < val.length) (o : Output) :
    printText g aty val o = appendAll g (bytewise (bodyOf aty (cstr val))) o := by
  induction val generalizing o with
  | nil => simp [cstr] at hend
  | cons c val ih =>
    by_cases hc : c = nul
    · subst hc
      rw [printText, if_pos rfl]
      simp [cstr, bodyOf, escapeText, bytewise, appendAll]
    · have hend' : (cstr val).length < val.length := by
        rw [cstr_cons hc] at hend
        simpa using hend
      rw [printText, if_neg hc, cstr_cons hc, bodyOf_cons, bytewise_append, bytewise_append,
        appendAll_append, appendAll_append, printEscape_parts, bind_assoc]
      apply bind_congr
      intro o₁
      rw [saddch_part]
      apply bind_congr
      intro o₂
      exact ih hend' o₂

lemma openQuote_parts (o : Output) :
    openQuote g aty o = appendAll g (bytewise (quoteBefore aty)) o := by
  unfold openQuote quoteBefore
  split_ifs
  · exact saddch_part _
  · exact saddch_part _
  · rfl

lemma closeQuote_parts (o : Output) :
    closeQuote g aty o = appendAll g (bytewise (quoteBehind aty)) o := by
  unfold closeQuote quoteBehind
  split_ifs
  · exact saddch_part _
  · rfl

lemma printVal_parts {valAllocated valUsed : Nat}
    (hx : SoundAtom (.value aty val valAllocated valUsed)) (o : Output) :
    printVal g aty val valUsed o = appendAll g (bytewise (bodyOf aty (cstr val))) o := by
  rcases hx with ⟨rfl, -, rfl⟩ | ⟨hlen, hused, hend, hcover⟩
  · rw [printVal, if_neg (Nat.lt_irrefl 0)]
    simp [cstr, bodyOf, escapeText, bytewise, appendAll]
  · unfold printVal
    split_ifs with hpos
    · exact printText_parts (by omega) o
    · have hnil : cstr val = [] := List.eq_nil_of_length_eq_zero (by omega)
      simp [hnil, bodyOf, escapeText, bytewise, appendAll]

lemma printBytes_parts (data : List Byte) (o : Output) :
    printBytes g data o = appendAll g (bytewise data) o := by
  induction data generalizing o with
  | nil => rfl
  | cons c data ih =>
    rw [printBytes]
    exact bind_congr fun o₁ => ih o₁

/-- An atom is appended in its pieces. -/
lemma printAtom_parts {x : Sexp} (hx : SoundAtom x) (hlist : ∀ elems, x ≠ .list elems)
    (o : Output) : printAtom g x o = appendAll g (parts x.tree) o := by
  cases x with
  | value aty val valAllocated valUsed =>
    rw [Sexp.tree, parts, renderAtom_eq, bytewise_append, bytewise_append, appendAll_append,
      appendAll_append, ← openQuote_parts, bind_assoc]
    apply bind_congr
    intro o₁
    rw [← printVal_parts hx]
    apply bind_congr
    intro o₂
    exact closeQuote_parts o₂
  | blob bindata binlength =>
    obtain rfl := hx
    rw [Sexp.tree, parts, bytewise_append, ← List.cons_append, appendAll_append, appendAll,
      bind_assoc, printAtom, sadd, cstr_binHeader]
    apply bind_congr
    intro o₁
    rw [if_neg (Nat.lt_irrefl _), List.take_length, printBytes_parts]
    apply bind_congr
    intro o₂
    exact saddch_part _
  | list elems => exact absurd rfl (hlist elems)

lemma separate_parts (xs : List Sexp) (o : Output) :
    separate g xs o = appendAll g (bytewise (separator (forest xs))) o := by
  cases xs with
  | nil => rfl
  | cons x xs => exact saddch_part _

mutual
lemma flatten_parts (x : Tree) : (parts x).flatten = x.render := by
  match x with
  | .atom aty text => exact flatten_bytewise _
  | .binary data =>
    rw [parts, List.flatten_cons, flatten_bytewise, Tree.render, ← List.append_assoc]
    rfl
  | .list elems =>
    rw [parts, Tree.render, List.cons_append, List.flatten_cons, List.flatten_append,
      flatten_partsAll elems]
    rfl

lemma flatten_partsAll (xs : List Tree) : (partsAll xs).flatten = renderAll xs := by
  match xs with
  | [] => rfl
  | x :: xs =>
    rw [partsAll, renderAll, List.flatten_append, List.flatten_append, flatten_bytewise,
      flatten_parts x, flatten_partsAll xs]
end

end Atoms

section Steps

variable {g : StringSetup} {l l' : PrintLocals} {n : Nat}

lemma soundAtom_of_leaves {x : Sexp} (hx : Leaves SoundAtom x) (hlist : ∀ elems, x ≠ .list elems) :
    SoundAtom x := by
  cases x with
  | list elems => exact absurd rfl (hlist elems)
  | _ => exact hx

lemma attempt_ok {α : Type} {x : Except Fault α} {a : α} (h : attempt x = .ok a) : x = .ok a := by
  cases x with
  | error f => cases h
  | ok b => exact congrArg Except.ok (Except.ok.inj h)

/-- Where the loop is left, it is not left by a step that was only attempted. -/
lemma exit_of_bind {α : Type} {x : Except Fault α} {f : α → PrintExec PrintLocals}
    (h : attempt x >>= f = .error (.ok l)) : ∃ a, x = .ok a ∧ f a = .error (.ok l) := by
  cases x with
  | error f => cases h
  | ok a => exact ⟨a, rfl, h⟩

lemma longer_separate {xs : List Sexp} {o o' : Output} (h : separate g xs o = .ok o') :
    Longer o o' (separator xs).length := by
  rw [separate_parts] at h
  have hlong := longer_appendAll h
  rwa [flatten_bytewise, separator_forest] at hlong

lemma longer_paren (h : printParen g l = .ok l') :
    l'.stack = l.stack ∧ l'.depth = l.depth - 1 ∧
      Longer l.out l'.out (l.depth - l'.depth) := by
  rw [printParen] at h
  split_ifs at h with hdepth
  · obtain ⟨o, hrun, hrest⟩ := steps_of_bind h
    cases hrest
    refine ⟨rfl, rfl, ?_⟩
    have hone : l.depth - (l.depth - 1) = 1 := by omega
    dsimp only
    rw [hone]
    exact longer_append (attempt_ok hrun)
  · obtain rfl : l = l' := Except.ok.inj h
    refine ⟨rfl, by omega, ?_⟩
    rw [Nat.sub_self]
    exact @longer_appendAll g [] l.out l.out rfl

lemma pop_levels {s s' : Faststack} {data level : List Sexp} {rest : List (List Sexp)}
    (h : s.pop = some (data, s')) (hlevels : s.levels = level :: rest) : s'.levels = rest := by
  rw [Faststack.pop, hlevels] at h
  split at h
  · rename_i hcons _
    obtain ⟨-, rfl⟩ := List.cons.inj hcons
    obtain ⟨-, rfl⟩ := Prod.mk.inj (Option.some.inj h)
    rfl
  · cases h

lemma printParen_exit {f : PrintLocals → PrintExec PrintLocals}
    (h : printParen g l >>= f = .error (.ok l')) :
    ∃ l₁, printParen g l = .ok l₁ ∧ f l₁ = .error (.ok l') := by
  rw [printParen] at h ⊢
  split_ifs at h ⊢ with hdepth
  · obtain ⟨o, hrun, hrest⟩ := exit_of_bind (x := saddch g rparen l.out)
      (f := fun o => f { l with out := o, depth := l.depth - 1 }) (by
        rw [← h]
        cases saddch g rparen l.out <;> rfl)
    exact ⟨_, by rw [hrun]; rfl, hrest⟩
  · exact ⟨l, rfl, h⟩

/-- The printer goes on behind the first element of the top level. -/
lemma printNext_next (h : printNext g l = .ok l') :
    ∃ x xs rest, l.stack.levels = (x :: xs) :: rest ∧ l'.stack.levels = xs :: rest ∧
      l'.depth = l.depth ∧ Longer l.out l'.out (separator xs).length := by
  rw [printNext] at h
  split at h
  · cases h
  · cases h
  · rename_i x xs rest hlevels
    obtain ⟨o, hrun, hrest⟩ := steps_of_bind h
    cases hrest
    exact ⟨x, xs, rest, hlevels, rfl, rfl, longer_separate (attempt_ok hrun)⟩

lemma printNext_exit (h : printNext g l = .error (.ok l')) : l' = l ∧ l.stack.levels = [] := by
  rw [printNext] at h
  split at h
  · rename_i hlevels
    cases h
    exact ⟨rfl, hlevels⟩
  · cases h
  · obtain ⟨o, -, hrest⟩ := exit_of_bind h
    cases hrest

/-- What a round does that stays in the loop: a list is closed, a list is opened (its level may fail),
or an atom is printed. -/
lemma printHead_cases (hsound : ∀ level ∈ l.stack.levels, LeavesAll SoundAtom level)
    (h : printHead g l = .ok l') :
    (∃ x xs rest, l.stack.levels = [] :: (x :: xs) :: rest ∧ l'.stack.levels = xs :: rest ∧
        l'.depth = l.depth - 1 ∧
        Longer l.out l'.out (l.depth - l'.depth + (separator xs).length)) ∨
      (∃ elems xs rest, l.stack.levels = (.list elems :: xs) :: rest ∧ l'.depth = l.depth + 1 ∧
        (l'.stack.levels = elems :: l.stack.levels ∨ l'.stack.levels = l.stack.levels) ∧
        Longer l.out l'.out 1) ∨
      ∃ x xs rest, l.stack.levels = (x :: xs) :: rest ∧ l'.stack.levels = xs :: rest ∧
        l'.depth = l.depth ∧
        Longer l.out l'.out (x.tree.render.length + (separator xs).length) := by
  rw [printHead] at h
  split at h
  · cases h
  · rename_i below hlevels
    left
    rw [printClose] at h
    cases hpop : l.stack.pop with
    | none =>
      rw [hpop] at h
      cases h
    | some p =>
      obtain ⟨data, stack⟩ := p
      rw [hpop] at h
      obtain ⟨l₁, hparen, hnext⟩ := steps_of_bind h
      obtain ⟨hstack₁, hdepth₁, hlong₁⟩ := longer_paren hparen
      obtain ⟨x, xs, rest, hlevels₁, hlevels', hdepth', hlong'⟩ := printNext_next hnext
      have hbelow := pop_levels hpop hlevels
      rw [hstack₁] at hlevels₁
      dsimp only at hlevels₁ hdepth₁ hlong₁
      rw [hbelow] at hlevels₁
      subst hlevels₁
      refine ⟨x, xs, rest, hlevels, hlevels', by omega, ?_⟩
      rw [hdepth']
      exact hlong₁.trans hlong'
  · rename_i elems xs rest hlevels
    right; left
    obtain ⟨o, hrun, hrest⟩ := steps_of_bind h
    have hlong := longer_append (attempt_ok hrun)
    obtain rfl := Except.ok.inj hrest
    refine ⟨elems, xs, rest, hlevels, ?_, ?_, ?_⟩
    · rw [printPush]
      split_ifs <;> rfl
    · rw [printPush]
      split_ifs
      · exact .inl rfl
      · exact .inl rfl
      · exact .inr rfl
    · rw [printPush]
      split_ifs <;> exact hlong
  · rename_i x xs rest hlist hlevels
    right; right
    obtain ⟨o, hrun, hrest⟩ := steps_of_bind h
    obtain ⟨y, ys, below, hlevels₁, hlevels', hdepth', hlong'⟩ := printNext_next hrest
    dsimp only at hlevels₁ hdepth' hlong'
    rw [hlevels] at hlevels₁
    cases hlevels₁
    refine ⟨x, xs, rest, hlevels, hlevels', hdepth', ?_⟩
    have hatom : SoundAtom x := by
      have hlevel := hsound (x :: xs) (by rw [hlevels]; exact List.mem_cons_self)
      exact soundAtom_of_leaves hlevel.1 hlist
    have hrun' := attempt_ok hrun
    rw [printAtom_parts hatom hlist] at hrun'
    have hlong := longer_appendAll hrun'
    rw [flatten_parts] at hlong
    exact hlong.trans hlong'

/-- What is left to print of an open level, behind the list that is being printed. -/
def leftBelow : List Sexp → Nat
  | [] => 0
  | _ :: xs => (separator xs).length + (renderAll (forest xs)).length

/-- The bytes that are left to print: the open parens, what is on the top level, and what is behind
the open lists. -/
def leftover (levels : List (List Sexp)) (depth : Nat) : Nat :=
  match levels with
  | [] => depth
  | level :: rest => depth + (renderAll (forest level)).length + (rest.map leftBelow).sum

lemma leftover_close (x : Sexp) (xs : List Sexp) (rest : List (List Sexp)) (depth : Nat) :
    leftover ([] :: (x :: xs) :: rest) depth =
      depth - (depth - 1) + (separator xs).length + leftover (xs :: rest) (depth - 1) := by
  rw [leftover, leftover, List.map_cons, List.sum_cons, leftBelow, forest, renderAll]
  simp only [List.length_nil]
  omega

lemma leftover_open (elems xs : List Sexp) (rest : List (List Sexp)) (depth : Nat) :
    leftover ((.list elems :: xs) :: rest) depth =
      1 + leftover (elems :: (.list elems :: xs) :: rest) (depth + 1) := by
  rw [leftover, leftover, List.map_cons, List.sum_cons, leftBelow, forest, renderAll, Sexp.tree,
    Tree.render, separator_forest]
  simp only [List.length_append, List.length_cons, List.length_nil]
  omega

lemma leftover_atom (x : Sexp) (xs : List Sexp) (rest : List (List Sexp)) (depth : Nat) :
    leftover ((x :: xs) :: rest) depth =
      x.tree.render.length + (separator xs).length + leftover (xs :: rest) depth := by
  rw [leftover, leftover, forest, renderAll, separator_forest]
  simp only [List.length_append]
  omega

lemma leftover_succ (level : List Sexp) (rest : List (List Sexp)) (depth : Nat) :
    leftover (level :: rest) (depth + 1) = leftover (level :: rest) depth + 1 := by
  rw [leftover, leftover]
  omega

/-- The string is lost, or together with what is left to print it has `n` bytes. -/
def Weighs (n : Nat) (l : PrintLocals) : Prop :=
  l.out.str = none ∨ ∃ s, l.out.str = some s ∧ n ≤ s.curlen + leftover l.stack.levels l.depth

lemma Weighs.next {k : Nat} (h : Weighs n l) (hlong : Longer l.out l'.out k)
    (hleft : leftover l.stack.levels l.depth ≤ k + leftover l'.stack.levels l'.depth) :
    Weighs n l' := by
  obtain hnone | ⟨s, t, hs, ht, hlen⟩ := hlong
  · exact .inl hnone
  obtain hnone | ⟨s', hs', hn⟩ := h
  · rw [hnone] at hs
    cases hs
  · rw [hs] at hs'
    cases hs'
    exact .inr ⟨t, ht, by omega⟩

/-- No round makes it less. A level that fails makes it more. -/
lemma weighs_step (hsound : ∀ level ∈ l.stack.levels, LeavesAll SoundAtom level) (h : Weighs n l)
    (hstep : printHead g l = .ok l') :
    (∀ level ∈ l'.stack.levels, LeavesAll SoundAtom level) ∧ Weighs n l' := by
  rcases printHead_cases hsound hstep with ⟨x, xs, rest, hlevels, hlevels', hdepth, hlong⟩ |
    ⟨elems, xs, rest, hlevels, hdepth, hpush, hlong⟩ |
    ⟨x, xs, rest, hlevels, hlevels', hdepth, hlong⟩
  · rw [hlevels] at hsound
    simp only [List.forall_mem_cons] at hsound
    refine ⟨?_, h.next hlong ?_⟩
    · rw [hlevels']
      exact List.forall_mem_cons.mpr ⟨hsound.2.1.2, hsound.2.2⟩
    · rw [hlevels, hlevels', leftover_close, hdepth]
  · have hchild : ∀ level ∈ elems :: l.stack.levels, LeavesAll SoundAtom level := by
      have htop := hsound (.list elems :: xs) (by rw [hlevels]; exact List.mem_cons_self)
      exact List.forall_mem_cons.mpr ⟨htop.1, hsound⟩
    rcases hpush with hopen | hfail
    · refine ⟨by rwa [hopen], h.next hlong ?_⟩
      rw [hopen, hlevels, leftover_open, hdepth]
    · refine ⟨by rwa [hfail], h.next hlong ?_⟩
      rw [hfail, hlevels, hdepth, leftover_succ]
      omega
  · rw [hlevels] at hsound
    simp only [List.forall_mem_cons] at hsound
    refine ⟨?_, h.next hlong ?_⟩
    · rw [hlevels']
      exact List.forall_mem_cons.mpr ⟨hsound.1.2, hsound.2⟩
    · rw [hlevels, hlevels', leftover_atom, hdepth]

/-- The end of the loop: only open parens are left. -/
lemma weighs_exit (h : Weighs n l) (hexit : printHead g l = .error (.ok l')) :
    l'.stack.levels = [] ∧ Weighs n l' := by
  rw [printHead] at hexit
  split at hexit
  · rename_i hlevels
    cases hexit
    exact ⟨hlevels, h⟩
  · rename_i below hlevels
    rw [printClose] at hexit
    cases hpop : l.stack.pop with
    | none =>
      rw [hpop] at hexit
      cases hexit
    | some p =>
      obtain ⟨data, stack⟩ := p
      rw [hpop] at hexit
      obtain ⟨l₁, hparen, hnext⟩ := printParen_exit hexit
      obtain ⟨hstack₁, hdepth₁, hlong₁⟩ := longer_paren hparen
      obtain ⟨rfl, hnil⟩ := printNext_exit hnext
      refine ⟨hnil, h.next hlong₁ ?_⟩
      rw [hstack₁] at hnil
      dsimp only at hnil hdepth₁ ⊢
      rw [hstack₁, hlevels, hnil, leftover, leftover, ← pop_levels hpop hlevels, hnil, forest,
        renderAll]
      simp only [List.length_nil, List.map_nil, List.sum_nil]
      omega
  · obtain ⟨o, -, hrest⟩ := exit_of_bind hexit
    cases hrest
  · rename_i x xs rest hlist hlevels
    obtain ⟨o, -, hrest⟩ := exit_of_bind hexit
    obtain ⟨-, hnil⟩ := printNext_exit hrest
    rw [hlevels] at hnil
    cases hnil

end Steps

section Proceeding

variable {g : StringSetup} {n k k' len spare depth : Nat} {text : List Byte}
  {levels rest : List (List Sexp)} {l : PrintLocals} {ps : List (List Byte)}
  {Q Q' : PrintLocals → Prop}

/-- The printer is at the levels `levels` with `text` in its string, and `n` bytes will come out. -/
structure At (n : Nat) (text : List Byte) (len : Nat) (levels : List (List Sexp))
    (spare depth : Nat) (l : PrintLocals) : Prop where
  shape : l = printing l.out levels spare depth
  filled : HoldsIn l.out text len
  sound : ∀ level ∈ levels, LeavesAll SoundAtom level
  due : n ≤ text.length + leftover levels depth

/-- The string is lost, or more than `n` bytes will come out. -/
def Lost (n : Nat) (l : PrintLocals) : Prop :=
  (∀ level ∈ l.stack.levels, LeavesAll SoundAtom level) ∧ Weighs (n + 1) l

/-- The next `k` requests are granted and the loop comes to a head with `Q`, or one of them fails and
the text is lost. -/
def Proceeds (g : StringSetup) (n k : Nat) (Q : PrintLocals → Prop) (l : PrintLocals) : Prop :=
  (Granted g.toSetup k l.out.allocs ∧
      ∃ l', Loop.Reaches (printHead g) l l' ∧ l'.out.allocs = l.out.allocs + k ∧ Q l') ∨
    (¬ Granted g.toSetup k l.out.allocs ∧ ∃ l', Loop.Reaches (printHead g) l l' ∧ Lost n l')

lemma Proceeds.bind (h : Proceeds g n k Q l) (hnext : ∀ l', Q l' → Proceeds g n k' Q' l') :
    Proceeds g n (k + k') Q' l := by
  rw [Proceeds, granted_add]
  rcases h with ⟨hgot, l₁, hreach₁, hallocs₁, hl₁⟩ | ⟨hdenied, hlost⟩
  · have hrest := hnext l₁ hl₁
    rw [Proceeds, hallocs₁] at hrest
    apply hrest.imp
    · rintro ⟨hgots, l₂, hreach₂, hallocs₂, hl₂⟩
      exact ⟨⟨hgot, hgots⟩, l₂, hreach₁.trans hreach₂, by omega, hl₂⟩
    · rintro ⟨hdenied, l₂, hreach₂, hl₂⟩
      exact ⟨fun hall => hdenied hall.2, l₂, hreach₁.trans hreach₂, hl₂⟩
  · exact .inr ⟨fun hall => hdenied hall.1, hlost⟩

/-- A round that appends the pieces `ps` and does nothing else with memory. -/
lemma proceeds_round (ho : HoldsIn l.out text len)
    (hround : ∀ o, appendAll g ps l.out = .ok o → printHead g l = .ok (printing o levels spare depth))
    (hsound : ∀ level ∈ levels, LeavesAll SoundAtom level)
    (hdue : n ≤ text.length + ps.flatten.length + leftover levels depth) :
    Proceeds g n (growths g.growsize text.length len ps)
      (At n (text ++ ps.flatten) (capacity g.growsize text.length len ps) levels spare depth) l := by
  rcases appendAll_cases ps ho with ⟨hgot, o, hrun, hallocs, hfilled⟩ | ⟨hdenied, o, hrun, hnone⟩
  · refine .inl ⟨hgot, _, .single (hround o hrun), hallocs, rfl, hfilled, hsound, ?_⟩
    rwa [List.length_append]
  · exact .inr ⟨hdenied, _, .single (hround o hrun), hsound, .inl hnone⟩

lemma flatten_element (x : Sexp) (xs : List Sexp) :
    (parts x.tree ++ bytewise (separator xs)).flatten = x.tree.render ++ separator xs := by
  rw [List.flatten_append, flatten_parts, flatten_bytewise]

lemma proceeds_atom {x : Sexp} {xs : List Sexp} (hlist : ∀ elems, x ≠ .list elems)
    (hl : At n text len ((x :: xs) :: rest) spare depth l) :
    Proceeds g n (growths g.growsize text.length len (parts x.tree ++ bytewise (separator xs)))
      (At n (text ++ (x.tree.render ++ separator xs))
        (capacity g.growsize text.length len (parts x.tree ++ bytewise (separator xs)))
        (xs :: rest) spare depth) l := by
  rw [← flatten_element]
  obtain ⟨hlevel, hrest⟩ := List.forall_mem_cons.mp hl.sound
  apply proceeds_round hl.filled
  · intro o hrun
    rw [appendAll_append] at hrun
    obtain ⟨o₁, hatom, hsep⟩ := steps_of_bind hrun
    rw [← printAtom_parts (soundAtom_of_leaves hlevel.1 hlist) hlist] at hatom
    rw [← separator_forest, ← separate_parts] at hsep
    rw [hl.shape]
    exact printHead_atom_round hlist hatom hsep
  · exact List.forall_mem_cons.mpr ⟨hlevel.2, hrest⟩
  · have hdue := hl.due
    rw [leftover_atom] at hdue
    rw [flatten_element, List.length_append]
    omega

lemma proceeds_close {x : Sexp} {xs : List Sexp}
    (hl : At n text len ([] :: (x :: xs) :: rest) spare (depth + 1) l) :
    Proceeds g n (growths g.growsize text.length len (bytewise (rparen :: separator xs)))
      (At n (text ++ (rparen :: separator xs))
        (capacity g.growsize text.length len (bytewise (rparen :: separator xs)))
        (xs :: rest) (spare + 1) depth) l := by
  have hflat := flatten_bytewise (rparen :: separator xs)
  nth_rewrite 2 [← hflat]
  obtain ⟨hlevel, hrest⟩ := List.forall_mem_cons.mp (List.forall_mem_cons.mp hl.sound).2
  apply proceeds_round hl.filled
  · intro o hrun
    obtain ⟨o₁, hparen, hsep⟩ := steps_of_bind hrun
    rw [← separator_forest] at hsep
    rw [hl.shape]
    exact printHead_close_round hparen ((separate_parts xs o₁).trans hsep)
  · exact List.forall_mem_cons.mpr ⟨hlevel.2, hrest⟩
  · have hdue := hl.due
    rw [leftover_close, Nat.add_sub_cancel] at hdue
    rw [hflat, List.length_cons]
    omega

/-- The paren, and then the level. Without the level the paren comes once more. -/
lemma proceeds_open {elems xs : List Sexp}
    (hl : At n text len ((.list elems :: xs) :: rest) spare depth l) :
    Proceeds g n (growths g.growsize text.length len [[lparen]] + (1 - spare))
      (At n (text ++ [lparen]) (capacity g.growsize text.length len [[lparen]])
        (elems :: (.list elems :: xs) :: rest) (spare - 1) (depth + 1)) l := by
  have hsound := hl.sound
  have hdue := hl.due
  have hchild : ∀ level ∈ elems :: (.list elems :: xs) :: rest, LeavesAll SoundAtom level :=
    List.forall_mem_cons.mpr ⟨(List.forall_mem_cons.mp hsound).1.1, hsound⟩
  rw [Proceeds, granted_add]
  rcases appendAll_cases [[lparen]] hl.filled with
    ⟨hgot, o, hrun, hallocs, hfilled⟩ | ⟨hdenied, o, hrun, hnone⟩
  · have hround := @printHead_open_round g l.out rest xs o spare depth elems
      ((saddch_part _).trans hrun)
    rw [← hl.shape] at hround
    by_cases hspare : 0 < spare
    · have hnone : 1 - spare = 0 := by omega
      rw [printPush, if_pos (by exact hspare)] at hround
      rw [hnone]
      refine .inl ⟨⟨hgot, granted_zero⟩, _, .single hround, hallocs, rfl, hfilled, hchild, ?_⟩
      rw [leftover_open] at hdue
      rw [List.length_append, List.length_singleton]
      omega
    · have hone : 1 - spare = 1 := by omega
      rw [printPush, if_neg (by exact hspare)] at hround
      rw [hone, granted_one, ← hallocs]
      by_cases halloc : g.alloc o.allocs = true
      · rw [if_pos (by exact halloc)] at hround
        refine .inl ⟨⟨hgot, halloc⟩, _, .single hround, ?_, ?_, hfilled, hchild, ?_⟩
        · exact congrArg (· + 1) hallocs
        · have hzero : spare - 1 = 0 := by omega
          rw [hzero]
          rfl
        · rw [leftover_open] at hdue
          rw [List.length_append, List.length_singleton]
          omega
      · rw [if_neg (by exact halloc)] at hround
        refine .inr ⟨fun hall => halloc hall.2, _, .single hround, hsound, ?_⟩
        obtain ⟨s, hs, hcontains, -⟩ := hfilled
        refine .inr ⟨s, hs, ?_⟩
        change n + 1 ≤ s.curlen + leftover ((.list elems :: xs) :: rest) (depth + 1)
        rw [leftover_succ, hcontains.curlen, List.length_append]
        omega
  · have hround := @printHead_open_round g l.out rest xs o spare depth elems
      ((saddch_part _).trans hrun)
    rw [← hl.shape] at hround
    refine .inr ⟨fun hall => hdenied hall.1, _, .single hround, ?_, .inl ?_⟩
    · rw [printPush]
      split_ifs
      · exact hchild
      · exact hchild
      · exact hsound
    · rw [printPush]
      split_ifs <;> exact hnone

mutual
/-- The first element of the top level: all it asks for is granted and it is printed, or the text is
lost. -/
lemma proceeds_element (x : Sexp) (n : Nat) (text : List Byte) (len : Nat) (xs : List Sexp)
    (rest : List (List Sexp)) (spare depth : Nat) (l : PrintLocals)
    (hl : At n text len ((x :: xs) :: rest) spare depth l) :
    Proceeds g n (growths g.growsize text.length len (parts x.tree ++ bytewise (separator xs)) +
        (levelsOf x.tree - spare))
      (At n (text ++ (x.tree.render ++ separator xs))
        (capacity g.growsize text.length len (parts x.tree ++ bytewise (separator xs)))
        (xs :: rest) (max spare (levelsOf x.tree)) depth) l := by
  match x with
  | .value aty val valAllocated valUsed =>
    rw [Sexp.tree, levelsOf, Nat.zero_sub, Nat.max_zero]
    exact proceeds_atom (by simp) hl
  | .blob bindata binlength =>
    rw [Sexp.tree, levelsOf, Nat.zero_sub, Nat.max_zero]
    exact proceeds_atom (by simp) hl
  | .list elems =>
    have hopen := proceeds_open (g := g) hl
    have hchain := fun l₁ hl₁ => proceeds_chain elems n (text ++ [lparen])
      (capacity g.growsize text.length len [[lparen]]) ((.list elems :: xs) :: rest) (spare - 1)
      (depth + 1) l₁ hl₁
    have hboth := hopen.bind hchain
    have hall := hboth.bind fun l₂ hl₂ => proceeds_close hl₂
    have hparts : parts (Sexp.list elems).tree ++ bytewise (separator xs) =
        [[lparen]] ++ partsAll (forest elems) ++ bytewise (rparen :: separator xs) := by
      rw [Sexp.tree, parts]
      simp [bytewise]
    have hrender : text ++ ((Sexp.list elems).tree.render ++ separator xs) =
        text ++ [lparen] ++ renderAll (forest elems) ++ (rparen :: separator xs) := by
      rw [Sexp.tree, Tree.render]
      simp
    have hflat : ([[lparen]] ++ partsAll (forest elems)).flatten =
        [lparen] ++ renderAll (forest elems) := by
      rw [List.flatten_append, flatten_partsAll]
      rfl
    have hopened : [[lparen]].flatten = [lparen] := rfl
    have hspare : max spare (levelsOf (Sexp.list elems).tree) =
        max (spare - 1) (levelsOfAll (forest elems)) + 1 := by
      rw [Sexp.tree, levelsOf]
      omega
    have hlevels : levelsOf (Sexp.list elems).tree - spare =
        1 - spare + (levelsOfAll (forest elems) - (spare - 1)) := by
      rw [Sexp.tree, levelsOf]
      omega
    rw [hparts, hrender, hspare, hlevels, growths_behind g.growsize text len hflat,
      growths_behind g.growsize text len hopened, capacity_behind g.growsize text len hflat,
      capacity_behind g.growsize text len hopened, ← List.append_assoc text]
    rw [Nat.add_add_add_comm, Nat.add_right_comm] at hall
    exact hall

lemma proceeds_chain (xs : List Sexp) (n : Nat) (text : List Byte) (len : Nat)
    (rest : List (List Sexp)) (spare depth : Nat) (l : PrintLocals)
    (hl : At n text len (xs :: rest) spare depth l) :
    Proceeds g n (growths g.growsize text.length len (partsAll (forest xs)) +
        (levelsOfAll (forest xs) - spare))
      (At n (text ++ renderAll (forest xs))
        (capacity g.growsize text.length len (partsAll (forest xs)))
        ([] :: rest) (max spare (levelsOfAll (forest xs))) depth) l := by
  match xs with
  | [] =>
    rw [forest, renderAll, partsAll, levelsOfAll, capacity, growths, Nat.zero_sub, Nat.max_zero,
      List.append_nil]
    exact .inl ⟨granted_zero, l, .refl, rfl, hl⟩
  | x :: xs =>
    have hone := proceeds_element x n text len xs rest spare depth l hl
    have hall := hone.bind fun l₁ hl₁ => proceeds_chain xs n _ _ rest _ depth l₁ hl₁
    have hmax : max spare (levelsOfAll (x.tree :: forest xs)) =
        max (max spare (levelsOf x.tree)) (levelsOfAll (forest xs)) := by
      rw [levelsOfAll, Nat.max_assoc]
    have hlevels : levelsOfAll (x.tree :: forest xs) - spare = levelsOf x.tree - spare +
        (levelsOfAll (forest xs) - max spare (levelsOf x.tree)) := by
      rw [levelsOfAll]
      omega
    rw [forest, renderAll, partsAll, separator_forest, hmax, hlevels, ← List.append_assoc text,
      growths_behind g.growsize text len (flatten_element x xs),
      capacity_behind g.growsize text len (flatten_element x xs), Nat.add_add_add_comm]
    exact hall
end

end Proceeding

end Sfsexp.Proofs
