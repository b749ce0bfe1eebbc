import Sfsexp.Proofs.Filling

/-!
# `print_sexp` and its buffer

When every byte that `print_sexp` writes lies inside the buffer, and what it leaves there.
-/

namespace Sfsexp.Proofs

open Sfsexp Spec

section Traversal

variable {g : Setup} {w w' w'' : Walk} {ps qs : List Piece}

lemma Puts.trans (h : w.Puts g ps w') (h' : w'.Puts g qs w'') : w.Puts g (ps ++ qs) w'' := by
  induction h with
  | refl => exact h'
  | step hstep _ ih =>
    rw [List.append_assoc]
    exact .step hstep (ih h')

lemma Puts.single (h : w.step g = some (ps, w')) : w.Puts g ps w' := by
  have hputs := Walk.Puts.step h (.refl w')
  rwa [List.append_nil] at hputs

/-- What is still to print, without the children of lists. -/
def pending (w : Walk) : Nat := (w.levels.map fun xs => xs.length + 1).sum

lemma pending_next (w : Walk) : pending w.next.2 ≤ pending w := by
  rw [Walk.next]
  split
  · rename_i y xs rest hl
    simp [pending, hl]
  · exact Nat.le_refl _

/-- A step that puts out nothing leaves less to print. -/
lemma pending_step (hstep : w.step g = some (ps, w')) (hnil : spelled ps = []) :
    pending w' < pending w := by
  rw [Walk.step] at hstep
  split at hstep
  · cases hstep
  · rename_i rest hl
    obtain ⟨-, rfl⟩ := Prod.mk.inj (Option.some.inj hstep)
    refine Nat.lt_of_le_of_lt (pending_next _) ?_
    simp [pending, hl]
  · obtain ⟨rfl, -⟩ := Prod.mk.inj (Option.some.inj hstep)
    simp [spelled, Piece.bytes] at hnil
  · rename_i x xs rest _ hl
    obtain ⟨-, rfl⟩ := Prod.mk.inj (Option.some.inj hstep)
    simp [pending, hl]

/-- The traversal ends or puts out a byte. -/
lemma puts_some (g : Setup) (w : Walk) :
    ∃ ps w', w.Puts g ps w' ∧ (w'.step g = none ∨ 0 < (spelled ps).length) := by
  induction hn : pending w using Nat.strong_induction_on generalizing w with
  | _ n ih =>
    cases hstep : w.step g with
    | none => exact ⟨[], w, .refl w, .inl hstep⟩
    | some p =>
      obtain ⟨ps, w₁⟩ := p
      by_cases hnil : spelled ps = []
      · have hlt := pending_step hstep hnil
        obtain ⟨qs, w₂, hputs, hend⟩ := ih (pending w₁) (hn ▸ hlt) w₁ rfl
        refine ⟨ps ++ qs, w₂, .step hstep hputs, ?_⟩
        rwa [spelled_append, hnil, List.nil_append]
      · exact ⟨ps, w₁, Puts.single hstep, .inr (List.length_pos_iff.mpr hnil)⟩

/-- The traversal ends or puts out as many bytes as one likes. -/
lemma puts_many (g : Setup) (w : Walk) (k : Nat) :
    ∃ ps w', w.Puts g ps w' ∧ (w'.step g = none ∨ k ≤ (spelled ps).length) := by
  induction k with
  | zero => exact ⟨[], w, .refl w, .inr (Nat.zero_le _)⟩
  | succ k ih =>
    obtain ⟨ps, w₁, hputs, hend | hlen⟩ := ih
    · exact ⟨ps, w₁, hputs, .inl hend⟩
    · obtain ⟨qs, w₂, hputs', hend'⟩ := puts_some g w₁
      refine ⟨ps ++ qs, w₂, Puts.trans hputs hputs', hend'.imp_right fun hpos => ?_⟩
      rw [spelled_append, List.length_append]
      omega

end Traversal

section Start

variable {g : Setup} {x : Sexp} {size : Nat} {buf : List Byte} {errno : ErrCode}

/-- The allocations for the copy of the first element and for the stack. -/
def headAllocs : Sexp → Nat
  | .list _ => 2
  | _ => 3

/-- The printer gets its copy of the first element and its stack. A blob without bytes of its own is
taken for a failed copy. -/
def HeadCopied (g : Setup) (x : Sexp) : Prop :=
  (∀ n < headAllocs x, g.alloc n = true) ∧ ∀ n, x ≠ .blob none n

/-- The locals at the first loop head. -/
def fillStart (g : Setup) (buf : List Byte) (size : Nat) (y : Sexp) (h : Heap) : FillLocals :=
  FillLocals.push g [y]
    { toWindow := ⟨buf, 0, size⟩, toHeap := h, stack := makeStack, depth := 0 }

/-- The copy has the text of the original. -/
lemma copyText_ok {aty : AtomT} {val : List Byte} {valAllocated valUsed : Nat} {h : Heap}
    (hx : Sealed (.value aty val valAllocated valUsed)) (halloc : g.alloc h.allocs = true) :
    copyText g aty val valAllocated valUsed h =
      .ok (some (.value aty (val.take valUsed ++ List.replicate (valAllocated - valUsed) nul)
        valAllocated valUsed), h.next) := by
  obtain ⟨hlen, hused, hend, -⟩ := hx
  have hne : val ≠ [] := by
    rintro rfl
    simp at hlen
    omega
  simp [copyText, hne, halloc, hused, hlen]

lemma sealed_copied {aty : AtomT} {val : List Byte} {valAllocated valUsed : Nat}
    (hx : Sealed (.value aty val valAllocated valUsed)) :
    Sealed (.value aty (val.take valUsed ++ List.replicate (valAllocated - valUsed) nul)
      valAllocated valUsed) := by
  obtain ⟨hlen, hused, hend, hcover⟩ := hx
  have hcopy := cstr_copied hlen hused hend hcover
  refine ⟨?_, hused, ?_, ?_⟩
  · simp only [List.length_append, List.length_take, List.length_replicate]
    omega
  · rwa [hcopy]
  · rwa [hcopy]

lemma forall_lt_two {p : Nat → Prop} : (∀ n < 2, p n) ↔ p 0 ∧ p 1 := by
  refine ⟨fun h => ⟨h 0 (by omega), h 1 (by omega)⟩, fun h n hn => ?_⟩
  obtain rfl | rfl : n = 0 ∨ n = 1 := by omega
  · exact h.1
  · exact h.2

lemma forall_lt_three {p : Nat → Prop} : (∀ n < 3, p n) ↔ p 0 ∧ p 1 ∧ p 2 := by
  refine ⟨fun h => ⟨h 0 (by omega), h 1 (by omega), h 2 (by omega)⟩, fun h n hn => ?_⟩
  obtain rfl | rfl | rfl : n = 0 ∨ n = 1 ∨ n = 2 := by omega
  · exact h.1
  · exact h.2.1
  · exact h.2.2

lemma headCopied_list {elems : List Sexp} :
    HeadCopied g (.list elems) ↔ g.alloc 0 = true ∧ g.alloc 1 = true := by
  rw [HeadCopied, headAllocs, forall_lt_two]
  simp

lemma headCopied_value {aty : AtomT} {val : List Byte} {valAllocated valUsed : Nat} :
    HeadCopied g (.value aty val valAllocated valUsed) ↔
      g.alloc 0 = true ∧ g.alloc 1 = true ∧ g.alloc 2 = true := by
  rw [HeadCopied]
  simp only [headAllocs]
  rw [forall_lt_three]
  simp

lemma headCopied_blob {data : List Byte} {n : Nat} :
    HeadCopied g (.blob (some data) n) ↔
      g.alloc 0 = true ∧ g.alloc 1 = true ∧ g.alloc 2 = true := by
  rw [HeadCopied]
  simp only [headAllocs]
  rw [forall_lt_three]
  simp

lemma not_headCopied_none {n : Nat} : ¬ HeadCopied g (.blob none n) := fun h => h.2 n rfl

/-- The copy of the first element: none at all, or one that prints as the original. -/
lemma copySexp_cases (g : Setup) (hx : Printable x) (errno : ErrCode) :
    (∃ h, copySexp g [x.unlinked] ⟨0, errno⟩ = .ok ([], h) ∧ ¬ HeadCopied g x) ∨
      ∃ y, copySexp g [x.unlinked] ⟨0, errno⟩ = .ok ([y], ⟨headAllocs x - 1, errno⟩) ∧
        (HeadCopied g x ↔ g.alloc (headAllocs x - 1) = true) ∧ Printable (relink y x) ∧
        (relink y x).tree = x.tree := by
  cases x with
  | list elems =>
    rw [headCopied_list]
    by_cases h0 : g.alloc 0 = true
    · refine .inr ⟨.list [], ?_, by simp [h0, headAllocs], hx, rfl⟩
      simp [Sexp.unlinked, copySexp, copyElement, h0, Except.map, headAllocs, Heap.next]
    · refine .inl ⟨Heap.fail ⟨0, errno⟩, ?_, by simp [h0]⟩
      simp [Sexp.unlinked, copySexp, copyElement, h0]
  | value aty val valAllocated valUsed =>
    obtain ⟨hbinary, hpos, hsealed⟩ := hx
    rw [headCopied_value]
    by_cases h0 : g.alloc 0 = true
    · have hrun : ∀ {out h}, copyText g aty val valAllocated valUsed ⟨1, errno⟩ = .ok (out, h) →
          copySexp g [Sexp.unlinked (.value aty val valAllocated valUsed)] ⟨0, errno⟩ =
            .ok (out.toList, h) := by
        intro out h hcopy
        change copySexp g [.value aty val valAllocated valUsed] ⟨0, errno⟩ = _
        rw [copySexp, copyElement, h0]
        dsimp only [Heap.next]
        rw [hcopy]
        cases out <;> rfl
      by_cases h1 : g.alloc 1 = true
      · have htree := cstr_copied hsealed.1 hsealed.2.1 hsealed.2.2.1 hsealed.2.2.2
        exact .inr ⟨_, hrun (copyText_ok hsealed h1), by simp [h0, h1, headAllocs],
          ⟨hbinary, hpos, sealed_copied hsealed⟩, congrArg (Tree.atom aty) htree⟩
      · have hne : val ≠ [] := by
          obtain ⟨hlen, -, hend, -⟩ := hsealed
          rintro rfl
          simp at hlen
          omega
        have hcopy : copyText g aty val valAllocated valUsed ⟨1, errno⟩ =
            .ok (none, Heap.fail ⟨1, errno⟩) := by
          simp [copyText, hne, h1]
        exact .inl ⟨Heap.fail ⟨1, errno⟩, hrun hcopy, by simp [h1]⟩
    · refine .inl ⟨Heap.fail ⟨0, errno⟩, ?_, by simp [h0]⟩
      simp [Sexp.unlinked, copySexp, copyElement, h0]
  | blob bindata binlength =>
    cases bindata with
    | none =>
      obtain rfl : 0 = binlength := hx
      by_cases h0 : g.alloc 0 = true
      · refine .inl ⟨⟨1, .memory⟩, ?_, not_headCopied_none⟩
        simp [Sexp.unlinked, copySexp, copyElement, copyBlob, h0, Heap.next]
      · refine .inl ⟨Heap.fail ⟨0, errno⟩, ?_, not_headCopied_none⟩
        simp [Sexp.unlinked, copySexp, copyElement, h0]
    | some data =>
      obtain rfl : data.length = binlength := hx
      rw [headCopied_blob]
      by_cases h0 : g.alloc 0 = true
      · by_cases h1 : g.alloc 1 = true
        · refine .inr ⟨.blob (some data) data.length, ?_, by simp [h0, h1, headAllocs], rfl, rfl⟩
          simp [Sexp.unlinked, copySexp, copyElement, copyBlob, h0, h1, Except.map, headAllocs,
            Heap.next]
        · refine .inl ⟨Heap.fail ⟨1, errno⟩, ?_, by simp [h1]⟩
          simp [Sexp.unlinked, copySexp, copyElement, copyBlob, h0, h1, Heap.next]
      · refine .inl ⟨Heap.fail ⟨0, errno⟩, ?_, by simp [h0]⟩
        simp [Sexp.unlinked, copySexp, copyElement, h0]

/-- The call with its copy and its stack. -/
lemma printSexp_copied {y : Sexp} {h : Heap} (hsize : 0 < size)
    (hcopy : copySexp g [x.unlinked] ⟨0, errno⟩ = .ok ([y], h)) (n : Nat) (xs : List Sexp) :
    printSexp g n buf size (x :: xs) errno =
      if g.alloc h.allocs = true then
        fillFinish size (Loop.run (fillHead g) n (fillStart g buf size (relink y x) h.next))
      else .ret ⟨-1, buf, .memory, none⟩ := by
  rw [printSexp, if_neg (by omega), hcopy]
  cases halloc : g.alloc h.allocs <;> simp [halloc, fillStart]

lemma printSexp_uncopied {h : Heap} (hsize : 0 < size)
    (hcopy : copySexp g [x.unlinked] ⟨0, errno⟩ = .ok ([], h)) (n : Nat) (xs : List Sexp) :
    printSexp g n buf size (x :: xs) errno = .ret ⟨-1, buf, .memory, none⟩ := by
  rw [printSexp, if_neg (by omega), hcopy]

/-- The first loop head. -/
lemma tracks_fillStart {y : Sexp} {h : Heap} (hy : Legible y) :
    Tracks (fillStart g buf size y h) (Walk.start g y.tree h.allocs) := by
  have hempty : Tracks { toWindow := ⟨buf, 0, size⟩, toHeap := h, stack := makeStack, depth := 0 }
      { levels := [], spare := 0, allocs := h.allocs, depth := 0 } :=
    ⟨rfl, rfl, rfl, rfl, rfl, by simp [makeStack], by simp [makeStack]⟩
  exact hempty.push ⟨hy, trivial⟩ (by simp [makeStack])

lemma holds_fillStart {y : Sexp} {h : Heap} (hbuf : buf.length = size) (hsize : 0 < size) :
    Holds size [] (fillStart g buf size y h).toWindow := by
  rw [fillStart, FillLocals.push]
  split_ifs <;> exact ⟨⟨hbuf, rfl, by simp, rfl⟩, hsize⟩

/-- The terminator behind a text that fits. -/
lemma endFill_ok {text : List Byte} {w : Window} (h : Holds size text w) (errno : ErrCode) :
    ∃ p, endFill size errno w = .ret p ∧ p.retval = toInt text.length ∧
      p.nulAt = some text.length ∧ Ended size p.cells text.length ∧
      p.cells.take (text.length + 1) = text ++ [nul] := by
  have hleft := h.left
  have hroom := h.room
  have hcells := h.cells
  have htext : w.cells.take w.b = text := by rw [h.cursor, h.taken]
  have hfits : w.b + [nul].length ≤ w.cells.length := by
    rw [h.cursor]
    simp
    omega
  have hnew : w.cells.take w.b ++ [nul] ++ w.cells.drop (w.b + [nul].length) =
      text ++ nul :: w.cells.drop (text.length + 1) := by
    rw [htext, h.cursor]
    simp
  refine ⟨⟨toInt (size - w.left), text ++ nul :: w.cells.drop (text.length + 1), errno, some w.b⟩,
    ?_, ?_, ?_, ⟨?_, by omega, ?_⟩, ?_⟩
  · rw [endFill, if_pos (Nat.ne_of_gt hroom), write_ok hfits, hnew]
  · dsimp only
    congr 1
    omega
  · dsimp only
    rw [h.cursor]
  · simp
    omega
  · simp
  · rw [List.take_append, List.take_of_length_le (Nat.le_succ _)]
    simp

lemma fills_addParens {text : List Byte} {w : Window} (hsize : 0 < size) (d : Nat)
    (h : Holds size text w) :
    Fills size text ((List.replicate d rparen).map .byte) (addParens d w) := by
  induction d generalizing text w with
  | zero => exact .none h
  | succ d ih =>
    rw [addParens, List.replicate_succ, ← List.singleton_append, List.map_append]
    exact Fills.bind hsize (fills_addChar h) fun w' h' => ih h'

/-- The end of the function writes a terminator inside the buffer. -/
lemma fillFinish_ended {text : List Byte} {l : FillLocals} (hsize : 0 < size)
    (h : Holds size text l.toWindow) :
    ∃ p i, fillFinish size (some (.inr l)) = .ret p ∧ p.nulAt = some i ∧ Ended size p.cells i := by
  have hfills := fills_addParens hsize l.depth h
  rw [fillFinish]
  match addParens l.depth l.toWindow, hfills with
  | .ok w, ⟨_, hw⟩ =>
    obtain ⟨p, hp, -, hnul, hended, -⟩ := endFill_ok hw l.errno
    exact ⟨p, _, hp, hnul, hended⟩
  | .error (.full cells b), ⟨_, _, hended, _⟩ => exact ⟨_, b, rfl, rfl, hended⟩
  | .error (.fault f), ⟨_, hclash⟩ => exact absurd hclash (not_clash_bytes _)

end Start

section Theorems

variable {g : Setup} {x : Sexp} {size : Nat} {buf : List Byte} {errno : ErrCode}

/-- The loop heads that a call meets. -/
def FillReaches (g : Setup) (buf : List Byte) (size : Nat) (x : Sexp) (errno : ErrCode)
    (l : FillLocals) : Prop :=
  ∃ y h, copySexp g [x.unlinked] ⟨0, errno⟩ = .ok ([y], h) ∧
    Loop.Reaches (fillHead g) (fillStart g buf size (relink y x) h.next) l

/-- The call stays inside its buffer: `left` is what is left of it at every loop head, and the call
returns with a NUL inside the buffer as the last byte it wrote. A write outside of the buffer is
undefined, so a call that returns made none. -/
structure PrintsInside (g : Setup) (buf : List Byte) (size : Nat) (sx : List Sexp)
    (errno : ErrCode) : Prop where
  counter : ∀ x ∈ sx.head?, ∀ l, FillReaches g buf size x errno l →
    l.b + l.left = size ∧ 0 < l.left
  terminated : ∃ n p i, printSexp g n buf size sx errno = .ret p ∧ p.nulAt = some i ∧
    i < size ∧ p.cells[i]? = some nul

/-- What the rounds of the loop preserve. -/
lemma holds_of_reaches {w : Walk} {l l' : FillLocals} {text : List Byte} (hsize : 0 < size)
    (ht : Tracks l w) (h : Holds size text l.toWindow) (hreach : Loop.Reaches (fillHead g) l l') :
    ∃ w' text', Tracks l' w' ∧ Holds size text' l'.toWindow := by
  induction hreach with
  | refl => exact ⟨w, text, ht, h⟩
  | tail _ hnext ih =>
    obtain ⟨w₁, text₁, ht₁, h₁⟩ := ih
    have hstep := round_step (g := g) hsize ht₁ h₁
    rw [Loop.Next] at hnext
    rcases hstep with ⟨-, hend⟩ | ⟨ps, w₂, -, x, l₂, hx, hrun, ht₂⟩
    · rw [hend] at hnext
      cases hnext
    · rw [hrun] at hnext
      cases x with
      | error e => cases hnext
      | ok v =>
        obtain rfl := Except.ok.inj hnext
        exact ⟨w₂, _, ht₂.window v, hx.2⟩

/-- When nothing clashes with the end of the buffer, the call returns and its last write is a NUL. -/
lemma returns_of_no_clash {y : Sexp} {h : Heap} (hbuf : buf.length = size) (hsize : 0 < size)
    (hy : Legible y)
    (hfree : ∀ ps w', (Walk.start g y.tree h.allocs).Puts g ps w' → ¬ Clash size 0 ps) :
    ∃ n p i, fillFinish size (Loop.run (fillHead g) n (fillStart g buf size y h)) = .ret p ∧
      p.nulAt = some i ∧ Ended size p.cells i := by
  have ht : Tracks (fillStart g buf size y h) (Walk.start g y.tree h.allocs) := tracks_fillStart hy
  have hh : Holds size [] (fillStart g buf size y h).toWindow := holds_fillStart hbuf hsize
  obtain ⟨ps, w', hputs, hend⟩ := puts_many g (Walk.start g y.tree h.allocs) size
  obtain ⟨x, hx, hok, herror⟩ := fillsTo_puts hsize hputs ht hh
  match x, hx, hok, herror with
  | .ok v, ⟨_, hv⟩, hok, _ =>
    obtain ⟨l', hreach, hl', ht'⟩ := hok v rfl
    have hholds : Holds size ([] ++ spelled ps) l'.toWindow := hl' ▸ hv
    have hnone : w'.step g = none := by
      refine hend.resolve_right fun hlen => ?_
      have := hv.lt
      rw [List.nil_append] at this
      omega
    have hexit : fillHead g l' = .error (.inr l') := by
      rcases round_step (g := g) hsize ht' hholds with ⟨-, hexit⟩ | ⟨_, _, hsome, -⟩
      · exact hexit
      · rw [hnone] at hsome
        cases hsome
    obtain ⟨n, hrun⟩ := Loop.halts_of_reaches hreach (Loop.halts_of_exit hexit)
    obtain ⟨p, i, hp, hnul, hended⟩ := fillFinish_ended hsize hholds
    exact ⟨n, p, i, by rw [hrun, hp], hnul, hended⟩
  | .error (.full cells b), ⟨_, _, hended, _⟩, _, herror =>
    obtain ⟨n, hrun⟩ := herror _ rfl
    exact ⟨n, _, b, by rw [hrun]; rfl, rfl, hended⟩
  | .error (.fault f), ⟨_, hclash⟩, _, _ => exact absurd hclash (hfree ps w' hputs)

/-- A clash makes the call write outside of its buffer. -/
lemma faults_of_clash {y : Sexp} {h : Heap} {ps : List Piece} {w' : Walk}
    (hbuf : buf.length = size) (hsize : 0 < size) (hy : Legible y)
    (hputs : (Walk.start g y.tree h.allocs).Puts g ps w') (hclash : Clash size 0 ps) :
    Loop.Halts (fillHead g) (fillStart g buf size y h) (.inl (.fault .string)) := by
  have ht : Tracks (fillStart g buf size y h) (Walk.start g y.tree h.allocs) := tracks_fillStart hy
  have hh : Holds size [] (fillStart g buf size y h).toWindow := holds_fillStart hbuf hsize
  obtain ⟨x, hx, -, herror⟩ := fillsTo_puts hsize hputs ht hh
  match x, hx, herror with
  | .ok v, ⟨hfree, _⟩, _ => exact absurd hclash hfree
  | .error (.full cells b), ⟨hfree, _⟩, _ => exact absurd hclash hfree
  | .error (.fault f), ⟨hstring, _⟩, herror => exact hstring ▸ herror _ rfl

/-- At every loop head the counter is what is left of the buffer. -/
lemma counter_of_reaches {l : FillLocals} (hx : Printable x) (hbuf : buf.length = size)
    (hsize : 0 < size) (hreach : FillReaches g buf size x errno l) :
    l.b + l.left = size ∧ 0 < l.left := by
  obtain ⟨y, h, hcopy, hreach⟩ := hreach
  rcases copySexp_cases g hx errno with ⟨h', hnone, -⟩ | ⟨y', hsome, -, hy, -⟩
  · rw [hcopy] at hnone
    cases hnone
  · rw [hcopy] at hsome
    obtain ⟨rfl, -⟩ : y = y' ∧ _ := by simpa using hsome
    obtain ⟨_, text, -, hh⟩ := holds_of_reaches hsize (tracks_fillStart (legible_of_printable _ hy))
      (holds_fillStart hbuf hsize) hreach
    rw [hh.cursor]
    exact ⟨hh.left, hh.room⟩

/-- A call that stays inside its buffer made its copy and met no clash. -/
lemma PrintsInside.free {xs : List Sexp} (hx : Printable x) (hbuf : buf.length = size)
    (hsize : 0 < size) (h : PrintsInside g buf size (x :: xs) errno) :
    HeadCopied g x ∧
      ∀ ps w', (Walk.start g x.tree (headAllocs x)).Puts g ps w' → ¬ Clash size 0 ps := by
  have hallocs : (Heap.next ⟨headAllocs x - 1, errno⟩).allocs = headAllocs x := by
    cases x <;> rfl
  obtain ⟨-, n, p, i, hret, hnul, -⟩ := h
  rcases copySexp_cases g hx errno with ⟨h, hcopy, -⟩ | ⟨y, hcopy, hhead, hy, htree⟩
  · rw [printSexp_uncopied hsize hcopy] at hret
    cases hret
    cases hnul
  · rw [printSexp_copied hsize hcopy] at hret
    by_cases halloc : g.alloc (headAllocs x - 1) = true
    · refine ⟨hhead.mpr halloc, fun ps w' hputs hclash => ?_⟩
      rw [if_pos halloc] at hret
      rw [← hallocs, ← htree] at hputs
      obtain ⟨m, hm⟩ := faults_of_clash hbuf hsize (legible_of_printable _ hy) hputs hclash
      cases hloop : Loop.run (fillHead g) n
          (fillStart g buf size (relink y x) (Heap.next ⟨headAllocs x - 1, errno⟩)) with
      | none =>
        rw [hloop] at hret
        cases hret
      | some r =>
        rw [hloop, Loop.halts_unique ⟨n, hloop⟩ ⟨m, hm⟩] at hret
        cases hret
    · rw [if_neg halloc] at hret
      cases hret
      cases hnul

/-- `print_sexp` stays inside its buffer exactly when it gets its copy and its stack, and none of
the pieces it puts out is a blob that clashes with the end of the buffer. -/
theorem print_sexp_inside (hx : Printable x) (hbuf : buf.length = size) (hsize : 0 < size)
    (xs : List Sexp) :
    PrintsInside g buf size (x :: xs) errno ↔
      HeadCopied g x ∧
        ∀ ps w', (Walk.start g x.tree (headAllocs x)).Puts g ps w' → ¬ Clash size 0 ps := by
  have hallocs : (Heap.next ⟨headAllocs x - 1, errno⟩).allocs = headAllocs x := by
    cases x <;> rfl
  refine ⟨fun h => h.free hx hbuf hsize, ?_⟩
  rintro ⟨hcopied, hfree⟩
  rcases copySexp_cases g hx errno with ⟨h, -, hno⟩ | ⟨y, hcopy, hhead, hy, htree⟩
  · exact absurd hcopied hno
  · rw [← hallocs, ← htree] at hfree
    obtain ⟨n, p, i, hret, hnul, hended⟩ := returns_of_no_clash hbuf hsize (legible_of_printable _ hy) hfree
    refine ⟨?_, n, p, i, ?_, hnul, hended.inside, hended.terminator⟩
    · rintro x' hx' l hreach
      obtain rfl : x = x' := by simpa using hx'
      exact counter_of_reaches hx hbuf hsize hreach
    · rw [printSexp_copied hsize hcopy, if_pos (hhead.mp hcopied), hret]

/-- The list `(ab)`. -/
def abList : Sexp := .list [.value .basic [97, 98, nul] 3 3]

/-- A list with a blob of three bytes, as `(#b#3#xyz )`. -/
def blobList : Sexp := .list [.blob (some [120, 121, 122]) 3]

/-- `(ab)` in five bytes. -/
theorem print_sexp_inside_list :
    PrintsInside .plain (List.replicate 5 nul) 5 [abList] .ok ↔
      HeadCopied .plain abList ∧ ∀ ps w',
        (Walk.start .plain abList.tree (headAllocs abList)).Puts .plain ps w' → ¬ Clash 5 0 ps :=
  have hatom : Printable (.value .basic [97, 98, nul] 3 3) :=
    ⟨by decide, by decide, by decide, by decide, by decide, by decide⟩
  print_sexp_inside (x := abList) ⟨hatom, trivial⟩ rfl (by decide) []

/-- The blob ends with the ninth byte, and the space behind it is the tenth. -/
theorem blob_overruns_buffer :
    ¬ PrintsInside .plain (List.replicate 9 nul) 9 [blobList] .ok := by
  intro h
  have hx : Printable blobList := ⟨rfl, trivial⟩
  have hfree := (h.free hx rfl (by decide)).2
  have hopen : (Walk.start .plain blobList.tree 2).step .plain = some ([.byte lparen],
      ⟨[[.binary [120, 121, 122]], [.list [.binary [120, 121, 122]]]], 0, 4, 1⟩) := rfl
  have hblob : (Walk.mk [[.binary [120, 121, 122]], [.list [.binary [120, 121, 122]]]] 0 4 1).step
      .plain = some ([.blob [120, 121, 122]], ⟨[[], [.list [.binary [120, 121, 122]]]], 0, 4, 1⟩) :=
    rfl
  apply hfree _ _ (.step hopen (Puts.single hblob))
  exact .inr (.inl ⟨by simp, rfl⟩)

end Theorems

section Rendering

variable {g : Setup} {rest : List (List Tree)}

/-- The traversal is past the first element of the top level. -/
def Past (w w' : Walk) (xs : List Tree) (rest : List (List Tree)) : Prop :=
  w'.levels = xs :: rest ∧ w'.depth = w.depth

mutual
/-- With every allocation succeeding, the traversal of an element puts out its rendering. -/
lemma puts_element (hg : g.Succeeds) (x : Sexp) (hx : Sealed x) (xs : List Tree)
    (rest : List (List Tree)) (w : Walk) (hw : w.levels = (x.tree :: xs) :: rest) :
    ∃ w', w.Puts g ((x.tree.render ++ separator xs).map .byte) w' ∧ Past w w' xs rest := by
  match x, hx with
  | .value aty val valAllocated valUsed, hx =>
    refine ⟨{ w with levels := xs :: rest }, Puts.single ?_, rfl, rfl⟩
    rw [Walk.step, hw, List.map_append]
    simp [Sexp.tree, atomPieces, Tree.render, Walk.next, hw]
  | .list elems, hx =>
    obtain ⟨w₁, hopen, hl₁, hd₁⟩ : ∃ w₁, w.step g = some ([.byte lparen], w₁) ∧
        w₁.levels = forest elems :: w.levels ∧ w₁.depth = w.depth + 1 := by
      refine ⟨Walk.push g (forest elems) { w with depth := w.depth + 1 }, ?_, ?_, ?_⟩
      · rw [Walk.step, hw]
        rfl
      · rw [Walk.push]
        split_ifs
        · rfl
        · rfl
        · exact absurd (hg _) ‹_›
      · rw [Walk.push]
        split_ifs <;> rfl
    obtain ⟨w₂, hchain, hl₂, hd₂⟩ := puts_chain hg elems hx w.levels w₁ hl₁
    have hclose : w₂.step g = some ([.byte rparen] ++ (separator xs).map .byte,
        { w₂ with levels := xs :: rest, spare := w₂.spare + 1, depth := w.depth }) := by
      rw [Walk.step, hl₂, hw]
      simp [Walk.next, hd₂, hd₁]
    refine ⟨{ w₂ with levels := xs :: rest, spare := w₂.spare + 1, depth := w.depth },
      ?_, rfl, rfl⟩
    have hputs := Walk.Puts.step hopen (Puts.trans hchain (Puts.single hclose))
    rw [Sexp.tree, Tree.render]
    simpa using hputs

lemma puts_chain (hg : g.Succeeds) (xs : List Sexp) (hxs : SealedAll xs)
    (rest : List (List Tree)) (w : Walk) (hw : w.levels = forest xs :: rest) :
    ∃ w', w.Puts g ((renderAll (forest xs)).map .byte) w' ∧ Past w w' [] rest := by
  match xs, hxs with
  | [], _ => exact ⟨w, .refl w, hw, rfl⟩
  | x :: xs, hxs =>
    obtain ⟨w₁, hputs₁, hl₁, hd₁⟩ := puts_element hg x hxs.1 (forest xs) rest w hw
    obtain ⟨w₂, hputs₂, hl₂, hd₂⟩ := puts_chain hg xs hxs.2 rest w₁ hl₁
    refine ⟨w₂, ?_, hl₂, hd₂.trans hd₁⟩
    rw [forest, renderAll, List.map_append]
    exact Puts.trans hputs₁ hputs₂
end

/-- The whole traversal of a text expression puts out its rendering. -/
lemma puts_rendering (hg : g.Succeeds) {x : Sexp} (hx : Sealed x) (allocs : Nat) :
    ∃ w', (Walk.start g x.tree allocs).Puts g (x.tree.render.map .byte) w' ∧
      w'.step g = none ∧ w'.depth = 0 := by
  have hstart : (Walk.start g x.tree allocs).levels = [[x.tree]] ∧
      (Walk.start g x.tree allocs).depth = 0 := by
    rw [Walk.start, Walk.push, if_neg (by simp), if_pos (hg _)]
    exact ⟨rfl, rfl⟩
  obtain ⟨w₁, hputs, hl₁, hd₁⟩ := puts_element hg x hx [] [] _ hstart.1
  have hzero : w₁.depth = 0 := hd₁.trans hstart.2
  have hlast : w₁.step g = some ([], { w₁ with levels := [], spare := w₁.spare + 1, depth := 0 }) := by
    rw [Walk.step, hl₁]
    simp [Walk.next, hzero]
  refine ⟨{ w₁ with levels := [], spare := w₁.spare + 1, depth := 0 }, ?_, rfl, rfl⟩
  · have hall := Puts.trans hputs (Puts.single hlast)
    simpa [separator] using hall

lemma toInt_of_lt {n : Nat} (h : n < 2 ^ 31) : toInt n = n := by
  have hhigh : (n : Int) < 2 ^ 31 := by exact_mod_cast h
  exact Int.bmod_eq_of_le (by omega) (by omega)

/-- What the bounded printer leaves in a buffer of `size` bytes. -/
lemma printSexp_renders (hg : g.Succeeds) {x : Sexp} (hp : Printable x) (hx : Sealed x)
    {size : Nat} {buf : List Byte} (hbuf : buf.length = size) (hsize : 0 < size) (xs : List Sexp)
    (errno : ErrCode) :
    ∃ n p, printSexp g n buf size (x :: xs) errno = .ret p ∧
      (x.tree.render.length < size → p.retval = toInt x.tree.render.length ∧
        p.cells.take (x.tree.render.length + 1) = x.tree.render ++ [nul]) ∧
      (size ≤ x.tree.render.length → p.retval = -1 ∧ p.errno = .bufferFull ∧
        p.cells = x.tree.render.take (size - 1) ++ [nul]) := by
  have hcopied : HeadCopied g x := ⟨fun n _ => hg n, by rintro n rfl; exact hx⟩
  rcases copySexp_cases g hp errno with ⟨h, -, hno⟩ | ⟨y, hcopy, hhead, hy, htree⟩
  · exact absurd hcopied hno
  have hrun := fun n => @printSexp_copied g x size buf errno _ _ hsize hcopy n xs
  obtain ⟨h, hheap⟩ : ∃ h, h = Heap.next ⟨headAllocs x - 1, errno⟩ := ⟨_, rfl⟩
  have ht : Tracks (fillStart g buf size (relink y x) h)
      (Walk.start g (relink y x).tree h.allocs) := tracks_fillStart (legible_of_printable _ hy)
  have hh : Holds size [] (fillStart g buf size (relink y x) h).toWindow :=
    holds_fillStart hbuf hsize
  obtain ⟨w', hputs, hnone, hdepth⟩ := puts_rendering hg hx h.allocs
  rw [← htree] at hputs ⊢
  obtain ⟨z, hz, hok, herror⟩ := fillsTo_puts hsize hputs ht hh
  match z, hz, hok, herror with
  | .ok v, ⟨_, hv⟩, hok, _ =>
    obtain ⟨l', hreach, hl', ht'⟩ := hok v rfl
    have hholds : Holds size (relink y x).tree.render l'.toWindow := by
      rw [hl']
      simpa using hv
    have hexit : fillHead g l' = .error (.inr l') := by
      rcases round_step (g := g) hsize ht' hholds with ⟨-, hexit⟩ | ⟨_, _, hsome, -⟩
      · exact hexit
      · rw [hnone] at hsome
        cases hsome
    obtain ⟨n, hn⟩ := Loop.halts_of_reaches hreach (Loop.halts_of_exit hexit)
    obtain ⟨p, hp, hval, -, -, htext⟩ := endFill_ok hholds l'.errno
    refine ⟨n, p, ?_, fun _ => ⟨hval, htext⟩, fun hlong => ?_⟩
    · rw [hrun, if_pos (hhead.mp hcopied), ← hheap, hn, fillFinish, ← ht'.depth, hdepth, addParens]
      exact hp
    · have := hholds.lt
      omega
  | .error (.full cells b), ⟨_, hend, _, hcut⟩, _, herror =>
    obtain ⟨n, hn⟩ := herror _ rfl
    obtain ⟨hcells, -⟩ := hcut ⟨_, rfl⟩
    simp only [spelled_bytes, List.nil_append] at hend hcells
    refine ⟨n, ⟨-1, cells, .bufferFull, some b⟩, ?_, fun hlt => ?_, fun _ => ⟨rfl, rfl, hcells⟩⟩
    · rw [hrun, if_pos (hhead.mp hcopied), ← hheap, hn]
      rfl
    · omega
  | .error (.fault f), ⟨_, hclash⟩, _, _ => exact absurd hclash (not_clash_bytes _)

/-- Both printers put out the rendering of a text expression: the growing string holds it, and a
buffer holds it with a terminator behind it, or is cut off with one when it is too small. -/
theorem printers_agree {g : StringSetup} {g' : Setup} (hg : g.Succeeds) (hg' : g'.Succeeds)
    {x : Sexp} (hp : Printable x) (hx : Sealed x) (hn : x.tree.render.length < 2 ^ 31)
    (xs : List Sexp) (ss : Nat) (errno : ErrCode) :
    (∃ n p s, printSexpCstr g n none (x :: xs) ss errno = .ret p ∧ p.str = some s ∧
      p.retval = x.tree.render.length ∧ s.curlen = x.tree.render.length ∧
      s.base.take s.curlen = x.tree.render) ∧
    ∀ size buf, 0 < size → buf.length = size →
      ∃ n p, printSexp g' n buf size (x :: xs) errno = .ret p ∧
        (x.tree.render.length < size → p.retval = x.tree.render.length ∧
          p.cells.take (x.tree.render.length + 1) = x.tree.render ++ [nul]) ∧
        (size ≤ x.tree.render.length → p.retval = -1 ∧ p.errno = .bufferFull ∧
          p.cells = x.tree.render.take (size - 1) ++ [nul]) := by
  constructor
  · obtain ⟨n, p, s, hrun, hs, hval, hcontains⟩ := printSexpCstr_renders hg hx xs ss errno
    refine ⟨n, p, s, hrun, hs, ?_, hcontains.curlen, hcontains.taken⟩
    rw [hval, hcontains.curlen, toInt_of_lt hn]
  · intro size buf hsize hbuf
    obtain ⟨n, p, hrun, hfits, hcut⟩ := printSexp_renders hg' hp hx hbuf hsize xs errno
    refine ⟨n, p, hrun, fun hlt => ?_, hcut⟩
    rw [← toInt_of_lt hn]
    exact hfits hlt

/-- `(ab)` is four bytes long. -/
theorem printers_agree_list :
    (∃ n p s, printSexpCstr .plain n none [abList] 1 .ok = .ret p ∧ p.str = some s ∧
      p.retval = abList.tree.render.length ∧ s.curlen = abList.tree.render.length ∧
      s.base.take s.curlen = abList.tree.render) ∧
    ∀ size buf, 0 < size → buf.length = size →
      ∃ n p, printSexp .plain n buf size [abList] .ok = .ret p ∧
        (abList.tree.render.length < size → p.retval = abList.tree.render.length ∧
          p.cells.take (abList.tree.render.length + 1) = abList.tree.render ++ [nul]) ∧
        (size ≤ abList.tree.render.length → p.retval = -1 ∧ p.errno = .bufferFull ∧
          p.cells = abList.tree.render.take (size - 1) ++ [nul]) :=
  have hatom : Sealed (.value .basic [97, 98, nul] 3 3) :=
    ⟨by decide, by decide, by decide, by decide⟩
  printers_agree (x := abList) (fun _ => rfl) (fun _ => rfl)
    ⟨⟨by decide, by decide, hatom⟩, trivial⟩ ⟨hatom, trivial⟩ (by decide) [] 1 .ok

end Rendering

end Sfsexp.Proofs
