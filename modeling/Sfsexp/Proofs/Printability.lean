import Sfsexp.Proofs.BufferPrinting
import Sfsexp.Proofs.Content
import Sfsexp.Proofs.Cursor
import Sfsexp.Proofs.PlainSessions

/-!
# What `print_sexp` is called with

The trees of every sequence of calls can be printed, and so can what the constructors make, as long as
a binary atom is given the bytes that its length counts.
-/

namespace Sfsexp.Proofs

open Sfsexp Spec

/-- The piece does not stop between a closing paren of a quoted list and the test of `qdepth`. -/
abbrev Unclosed : Exec Locals → Prop :=
  Post (fun l => l.state ≠ .s9) (fun r => r.cc.state ≠ .s9) fun _ => True

section Rounds

variable {env : Env} {l : Locals} {c : Byte}

lemma Still.unclosed {x : Exec Locals} {f : Locals → Exec Locals} (hx : Still l x)
    (hs : l.state ≠ .s9) (hf : ∀ l', l'.state = l.state → Unclosed (f l')) : Unclosed (x >>= f) :=
  Post.bind (Q := fun l' => l'.state = l.state)
    (hx.mono (fun _ h => h.2) fun r h => by rw [h.2.1]; exact hs) hf

lemma unclosed_state1 (hs : l.state = .s1) : Unclosed (state1 env c l) := by
  have hs' : ({ l with vcur := 0 } : Locals).state ≠ .s9 := by simp [hs]
  rw [state1]
  split_ifs
  · simpa [Post] using hs'
  · simp [Post]
  · rw [fire_eq]
    simp [Post]
  · simp [Post]
  · simp [Post]
  · simp [Post]
  · refine still_writeCur.unclosed hs' fun l₁ hs₁ => ?_
    refine (@still_grow env { l₁ with esc := c == backslash, valUsed := l₁.valUsed + 1 }
      false).unclosed (by simp [hs₁, hs]) fun l₂ hs₂ => ?_
    change (if c = hash ∧ l₂.mode = .inlineBinary then State.s12 else .s4) ≠ .s9
    split_ifs <;> simp

lemma unclosed_state2 (hs : l.state = .s2) : Unclosed (state2 env l) := by
  refine (@still_need env { l with depth := l.depth + 1 }).unclosed (by simp [hs]) fun l₁ hs₁ => ?_
  refine (@still_attachList env { l₁ with elts := l₁.elts + 1, sx := [.list []] }).unclosed
    (by simp [hs₁, hs]) fun l₂ hs₂ => ?_
  refine still_need.unclosed (by simp [hs₂, hs₁, hs]) fun l₃ _ => ?_
  simp [Post]

lemma unclosed_returnTree : Unclosed (.error (returnTree l)) := by
  rw [returnTree]
  split
  · trivial
  · simp [Post, Locals.save]

lemma unclosed_state3 (hs : l.state = .s3) : Unclosed (state3 l) := by
  rw [state3]
  split_ifs
  · simp [Post, Locals.save]
  · refine (@still_closeLevel { l with t := l.t + 1, depth := l.depth - 1 }).unclosed (by simp [hs])
      fun l₁ _ => ?_
    dsimp only
    split_ifs
    · exact unclosed_returnTree
    · simp [Post]

/-- The end of an atom, which leaves the state to `done` and `next`. -/
lemma unclosed_endAtom {aty : Locals → AtomT} {before done next : Locals → Locals}
    (hs : l.state ≠ .s9) (hbefore : ∀ l : Locals, (before l).state = l.state)
    (hdone : ∀ l : Locals, (done l).state ≠ .s9)
    (hnext : ∀ l' : Locals, l'.state = l.state → (next l').state ≠ .s9) :
    Unclosed (need env l >>= fun l => emit env (aty l) (before l) >>= fun l =>
      match link l with
      | none => .error ((done l).save .ok l.sx)
      | some l => .ok (next l)) := by
  refine still_need.unclosed hs fun l₁ hs₁ => ?_
  refine (still_emit _).unclosed (by rw [hbefore, hs₁]; exact hs) fun l₂ hs₂ => ?_
  cases hlink : link l₂ with
  | none => exact hdone l₂
  | some l₃ =>
    refine hnext l₃ ?_
    rw [(link_still hlink).2, hs₂, hbefore, hs₁]

lemma unclosed_state4 (hs : l.state = .s4) : Unclosed (state4 env c l) := by
  rw [state4]
  split_ifs
  · rw [overwrite]
    split
    · trivial
    · split_ifs
      · simp [Post, hs]
      · trivial
  · refine still_storeEsc.unclosed (by simp [hs]) fun l₁ hs₁ => ?_
    simp [Post, hs₁, hs]
  · refine still_writeCur.unclosed (by simp [hs]) fun l₁ hs₁ => ?_
    refine @unclosed_endAtom env { l₁ with valUsed := l₁.valUsed + 1 } _ id
      (fun l => { l with squoted := false, state := .s1, esc := false }) (afterBare c)
      (by simp [hs₁, hs]) (fun _ => rfl) (by simp) fun l' _ => ?_
    rw [afterBare]
    split_ifs <;> simp

lemma unclosed_state5Rest (hs : l.state = .s5) : Unclosed (state5Rest env c l) := by
  rw [state5Rest]
  split_ifs
  · refine (@still_closingQuote env { l with state := .s6 }).unclosed (by simp) fun l₁ hs₁ => ?_
    refine still_writeCur.unclosed (by simp [hs₁]) fun l₂ hs₂ => ?_
    exact @unclosed_endAtom env { l₂ with valUsed := l₂.valUsed + 1 } _
      (fun l => { l with squoted := false })
      (fun l => { l with t := l.t + 1, squoted := false, esc := false, state := .s1 })
      (fun l => { l with t := l.t + 1 }) (by simp [hs₂, hs₁]) (fun _ => rfl) (by simp)
      fun l' hs' => by simp [hs', hs₂, hs₁]
  · refine still_store.unclosed (by simp [hs]) fun l₁ hs₁ => ?_
    simp [Post, hs₁, hs]

lemma unclosed_state5 (hs : l.state = .s5) : Unclosed (state5 env c l) := by
  rw [state5]
  split_ifs
  · rw [overwrite]
    split
    · trivial
    · split_ifs
      · rw [ok_bind, Env.read]
        split
        · exact unclosed_state5Rest hs
        · trivial
      · trivial
  · exact unclosed_state5Rest hs

lemma unclosed_state7 : Unclosed (state7 env c l) := by
  rw [state7]
  split_ifs
  · refine (@still_store env { l with state := .s5, vcur := 0, t := l.t + 1 } dquote).unclosed
      (by simp) fun l₁ hs₁ => ?_
    simp [Post, hs₁]
  · simp [Post]
  · simp [Post]

lemma unclosed_state9 : Unclosed (state9 env l) := by
  rw [state9]
  split_ifs
  · refine (@still_writeCur { l with state := .s1 } nul).unclosed (by simp) fun l₁ hs₁ => ?_
    exact @unclosed_endAtom env l₁ _ _ _ id (by simp [hs₁]) (fun _ => rfl) (by simp)
      fun l' hs' => by simp [hs', hs₁]
  · simp [Post]

/-- A closing paren is stored, and `qdepth` tested, in one round. -/
lemma unclosed_state8 (h : env.Succeeds) : Unclosed (state8 env c l) := by
  have hstore := @calm_storeEsc env (countParen c l) c h
  rw [state8]
  cases hstored : storeEsc env c (countParen c l) with
  | error stop =>
    rw [hstored] at hstore
    cases stop with
    | ret r => exact hstore.elim
    | fault f => trivial
  | ok l₁ =>
    rw [ok_bind]
    dsimp only
    split_ifs with hs
    · exact unclosed_state9
    · exact hs

lemma unclosed_state10 (hs : l.state = .s10) : Unclosed (state10 env c l) := by
  rw [state10]
  split_ifs
  · refine (@still_storeEsc env { l with state := .s8 } c).unclosed (by simp) fun l₁ hs₁ => ?_
    simp [Post, hs₁]
  · refine still_storeEsc.unclosed (by simp [hs]) fun l₁ hs₁ => ?_
    simp [Post, hs₁, hs]

lemma unclosed_state11 : Unclosed (state11 c l) := by
  change (if c = newline then State.s1 else .s11) ≠ .s9
  split_ifs <;> simp

lemma unclosed_state12 (hs : l.state = .s12) : Unclosed (state12 env c l) := by
  rw [state12]
  split_ifs
  · refine still_storeEsc.unclosed (by simp [hs]) fun l₁ _ => ?_
    simp [Post]
  · simp [Post]

lemma unclosed_state13 (hs : l.state = .s13) : Unclosed (state13 env c l) := by
  rw [state13]
  split_ifs
  · refine still_storeEsc.unclosed (by simp [hs]) fun l₁ _ => ?_
    simp [Post]
  · simp [Post]

lemma unclosed_state14 (hs : l.state = .s14) : Unclosed (state14 env c l) := by
  rw [state14]
  split_ifs
  · refine (@still_writeCur { l with t := l.t + 1, state := .s15 } nul).unclosed (by simp)
      fun l₁ hs₁ => ?_
    dsimp only
    split_ifs
    · refine still_need.unclosed (by simp [hs₁]) fun l₂ hs₂ => ?_
      simp [Post, hs₂, hs₁]
    · simp [Post, hs₁]
  · refine still_storeEsc.unclosed (by simp [hs]) fun l₁ hs₁ => ?_
    simp [Post, hs₁, hs]

lemma unclosed_state15 (hs : l.state = .s15) : Unclosed (state15 env l) := by
  have hread : Post (fun l' => l'.state = .s15) (fun _ => False) (fun _ => True) (readBlob env l) := by
    rw [readBlob]
    split_ifs
    · rw [Env.read]
      split
      · rw [ok_bind]
        split
        · trivial
        · split_ifs
          · exact hs
          · trivial
      · trivial
    · exact hs
  refine Post.bind (hread.mono (fun _ h => h) fun _ h => h.elim) fun l₁ hs₁ => ?_
  split_ifs
  · refine still_need.unclosed (by simp [hs₁]) fun l₂ _ => ?_
    dsimp only
    cases hlink : link _ with
    | none => simp [Post]
    | some l₃ =>
      change l₃.state ≠ .s9
      rw [(link_still hlink).2]
      simp
  · simp [Post, hs₁]

lemma unclosed_finish (hs : l.state ≠ .s9) : Unclosed (.error (finish env l)) := by
  rw [finish]
  split_ifs
  · exact unclosed_returnTree
  · split
    · trivial
    · exact hs

lemma unclosed_switch (h : env.Succeeds) : Unclosed (switch env c l) := by
  rw [switch]
  cases hs : l.state with
  | s1 => exact unclosed_state1 hs
  | s2 => exact unclosed_state2 hs
  | s3 => exact unclosed_state3 hs
  | s4 => exact unclosed_state4 hs
  | s5 => exact unclosed_state5 hs
  | s6 => simp [Post]
  | s7 => exact unclosed_state7
  | s8 => exact unclosed_state8 h
  | s9 => exact unclosed_state9
  | s10 => exact unclosed_state10 hs
  | s11 => exact unclosed_state11
  | s12 => exact unclosed_state12 hs
  | s13 => exact unclosed_state13 hs
  | s14 => exact unclosed_state14 hs
  | s15 => exact unclosed_state15 hs
  | unknown => simp [Post, Locals.save, hs]

lemma unclosed_cparseHead (h : env.Succeeds) (hl : l.state ≠ .s9) : Unclosed (cparseHead env l) := by
  rw [cparseHead]
  split_ifs with h15
  · exact unclosed_finish hl
  · exact unclosed_state15 h15
  · rw [Env.read]
    split
    · rw [ok_bind]
      split_ifs
      · exact unclosed_finish hl
      · exact unclosed_switch h
    · trivial

end Rounds

/-- What the printer asks of an atom. -/
def PrintableAtom : Sexp → Prop
  | .value aty val valAllocated valUsed => Printable (.value aty val valAllocated valUsed)
  | .blob bindata binlength => Printable (.blob bindata binlength)
  | .list _ => False

mutual
lemma printable_of_leaves (x : Sexp) (h : Leaves PrintableAtom x) : Printable x := by
  match x, h with
  | .value aty val valAllocated valUsed, h => exact h
  | .blob bindata binlength, h => exact h
  | .list elems, h => exact printableAll_of_leaves elems h

lemma printableAll_of_leaves (xs : List Sexp) (h : LeavesAll PrintableAtom xs) :
    PrintableAll xs := by
  match xs, h with
  | [], _ => trivial
  | x :: xs, h => exact ⟨printable_of_leaves x h.1, printableAll_of_leaves xs h.2⟩
end

section Sessions

variable {env : Env} {l : Locals} {c : Byte} {cc : Pcont}

/-- The atom in a terminated buffer. -/
lemma printable_terminated {aty : AtomT} {used : Nat} (haty : aty ≠ .binary)
    (hr : Room l.toRegs) (hcur : l.vcur ≤ l.valUsed) (hpos : 0 < used) (hused : l.valUsed ≤ used)
    (hmost : used ≤ l.valUsed + 1) :
    Printable (.value aty (l.val.set l.vcur nul) l.valAllocated used) := by
  refine ⟨haty, hpos, ?_⟩
  rcases consistent_terminated aty hr hcur hused hmost with ⟨-, -, hzero⟩ | hsealed
  · omega
  · exact hsealed

/-- Every atom that a round builds can be printed. -/
lemma printable_of_builds (h : env.Succeeds) (hi : Held l.toRegs) (h9 : l.state ≠ .s9) {x : Sexp}
    (hx : Builds env c l x) : PrintableAtom x := by
  cases hx with
  | bare hs hlt =>
    exact printable_terminated (bareType_ne_binary l) hi.room hi.cursor (Nat.succ_pos _)
      (Nat.le_succ _) (le_refl _)
  | @quoted l₁ l₂ hs hpair hquote hlt =>
    have hstart : Room l₁.toRegs ∧ l₁.vcur ≤ l₁.valUsed := by
      rcases hpair with rfl | ⟨-, hpair⟩
      · exact ⟨hi.room, hi.cursor⟩
      · have hback := @storing_overwrite l c hi.room hi.cursor
        rw [hpair] at hback
        exact ⟨hback.room, hback.cursor⟩
    have hstored := @storing_closingQuote env { l₁ with state := .s6 } h
      (hstart.1.same ⟨rfl, rfl, rfl⟩) hstart.2
    rw [hquote] at hstored
    exact printable_terminated (quotedType_ne_binary l₂) hstored.room hstored.cursor
      (Nat.succ_pos _) (Nat.le_succ _) (le_refl _)
  | @list l₁ hs hesc hc hstore hq hlt =>
    have hstored := @storing_storeEsc env { l with qdepth := l.qdepth - 1, state := .s9 } c h
      (hi.room.same ⟨rfl, rfl, rfl⟩) hi.cursor
    have hcounted := @counting_storeEsc env { l with qdepth := l.qdepth - 1, state := .s9 } c
      ⟨hi.cursor, fun _ => hi.room.cells⟩
    rw [hstore] at hstored hcounted
    have hused : l₁.valUsed = l.valUsed + 1 := hcounted.used
    exact printable_terminated (by simp) hstored.room hstored.cursor (hused ▸ Nat.succ_pos _)
      (le_refl _) (Nat.le_succ _)
  | listEnd hs => exact absurd hs h9
  | @blob l₁ hs hread hend =>
    have hheld := @heldBy_readBlob env l hi hs
    rw [hread] at hheld
    obtain ⟨hlen, -⟩ := hheld.1.blob hheld.2
    change (l₁.bindata.getD []).length = l₁.binread
    rw [hlen, hend]

/-- What the registers hold between two calls. -/
structure PrintableRegs (r : Regs) : Prop where
  held : Held r
  unclosed : r.state ≠ .s9
  levels : ∀ T ∈ r.stack.levels, LeavesAll PrintableAtom T

/-- What a continuation holds, with the tree of its last call. -/
structure PrintableContent (cc : Pcont) : Prop extends PrintableRegs cc.toRegs where
  result : LeavesAll PrintableAtom cc.lastSexp

lemma printable_head (h : env.Succeeds) (hi : Held l.toRegs) (h9 : l.state ≠ .s9)
    (hl : StockedHead PrintableAtom (fun _ => True) l) :
    Stocks PrintableAtom (fun _ => True) (cparseHead env l) := by
  apply stocks_cparseHead trivial trivial hl
  intro c _ x hx
  exact ⟨printable_of_builds h hi h9 hx, fun _ _ => trivial⟩

lemma printable_reaches (h : env.Succeeds) {l₀ : Locals} (hi : Held l₀.toRegs) (h9 : l₀.state ≠ .s9)
    (hl : StockedHead PrintableAtom (fun _ => True) l₀)
    (hrun : Loop.Reaches (cparseHead env) l₀ l) :
    Held l.toRegs ∧ l.state ≠ .s9 ∧ StockedHead PrintableAtom (fun _ => True) l := by
  induction hrun with
  | refl => exact ⟨hi, h9, hl⟩
  | tail _ hnext ih =>
    obtain ⟨hi₁, h9₁, hl₁⟩ := ih
    have hnext : cparseHead env _ = .ok _ := hnext
    have hheld := heldBy_cparseHead h hi₁
    have hopen := unclosed_cparseHead h h9₁
    have hstock := printable_head h hi₁ h9₁ hl₁
    rw [hnext] at hheld hopen hstock
    exact ⟨hheld, hopen, hstock⟩

lemma printableRegs_new (g : Setup) : PrintableRegs (Pcont.new g).toRegs := by
  refine ⟨.of_room ⟨g.length_fresh _, g.params.start_pos⟩ (le_refl _) (by simp [Pcont.new]),
    by simp [Pcont.new], ?_⟩
  intro T hT
  cases hT

lemma PrintableRegs.configure (h : PrintableRegs cc.toRegs) (mode : ParserMode)
    (handlers : Option Handlers) :
    PrintableRegs { cc with mode := mode, eventHandlers := handlers }.toRegs :=
  ⟨⟨h.held.room.same ⟨rfl, rfl, rfl⟩, h.held.cursor, h.held.blob⟩, h.unclosed, h.levels⟩

/-- A call of the parser that is given the memory it asks for. -/
lemma printableContent_of_call {allocs : Nat} {r : Return} (h : env.Succeeds)
    (hcc : PrintableRegs cc.toRegs) (hrun : Loop.Reaches (cparseHead env) (cc.enter allocs) l)
    (hret : cparseHead env l = .error (.ret r)) : PrintableContent r.cc := by
  have hstart : StockedHead PrintableAtom (fun _ => True) (cc.enter allocs) :=
    ⟨hcc.levels, trivial, fun _ _ => trivial⟩
  obtain ⟨hheld, hopen, hstock⟩ := printable_reaches h hcc.held hcc.unclosed hstart hrun
  have hheld' := heldBy_cparseHead h hheld
  have hopen' := unclosed_cparseHead h hopen
  have hstock' := printable_head h hheld hopen hstock
  rw [hret] at hheld' hopen' hstock'
  exact ⟨⟨hheld', hopen', hstock'.levels⟩, hstock'.sx⟩

lemma printableContent_of_session (h : Session ParserCall cc) : PrintableContent cc := by
  induction h with
  | @start g _ _ h =>
    rw [(initContinuation_eq_new h).1]
    exact ⟨printableRegs_new g, trivial⟩
  | configure _ mode handlers ih => exact ⟨ih.toPrintableRegs.configure mode handlers, ih.result⟩
  | @call cc k allocs l r _ hrun hlast hret ih =>
    obtain ⟨-, hhead⟩ := head_of_parserCall hrun hlast
    rw [hhead] at hrun hret
    have hreach : Loop.Reaches (cparseHead k.env) (cc.enter allocs) l :=
      Relation.ReflTransGen.mono (fun _ _ hnext => hnext.2) _ _ hrun
    exact printableContent_of_call hlast.1 ih.toPrintableRegs hreach hret

/-- The trees of a sequence of calls can be printed. -/
theorem printable_of_session (h : Session ParserCall cc) : PrintableAll cc.lastSexp :=
  printableAll_of_leaves _ (printableContent_of_session h).result

end Sessions

/-- A binary atom has the bytes that its length counts, and no more. -/
def ExactAtom : Sexp → Prop
  | .blob bindata binlength => (bindata.getD []).length = binlength
  | _ => True

section Constructors

variable {P Q R : Sexp → Prop} {g : Setup} {s xs : List Sexp} {x : Sexp}

mutual
lemma leaves_and_imp (h : ∀ a, P a → Q a → R a) (x : Sexp) (hP : Leaves P x) (hQ : Leaves Q x) :
    Leaves R x := by
  match x, hP, hQ with
  | .value aty val valAllocated valUsed, hP, hQ => exact h _ hP hQ
  | .blob bindata binlength, hP, hQ => exact h _ hP hQ
  | .list elems, hP, hQ => exact leavesAll_and_imp h elems hP hQ

/-- What follows from two properties of an atom holds of all atoms where the two do. -/
lemma leavesAll_and_imp (h : ∀ a, P a → Q a → R a) (xs : List Sexp) (hP : LeavesAll P xs)
    (hQ : LeavesAll Q xs) : LeavesAll R xs := by
  match xs, hP, hQ with
  | [], _, _ => trivial
  | x :: xs, hP, hQ => exact ⟨leaves_and_imp h x hP.1 hQ.1, leavesAll_and_imp h xs hP.2 hQ.2⟩
end

/-- `new_sexp_atom` makes no binary atom. -/
lemma newSexpAtom_ne_binary {h h' : Heap} {buf : List Byte} {bs : Nat} {aty : AtomT}
    (hnew : newSexpAtom g buf bs aty h = .ok (some x, h')) : aty ≠ .binary := by
  rintro rfl
  rw [newSexpAtom, if_pos rfl] at hnew
  cases hnew

/-- Every atom that the constructors and the calls of the parser make can be printed, a binary atom
of `new_sexp_binary_atom` when the client passes as many bytes as it says. -/
lemma leaves_of_built (h : Built s) : LeavesAll (fun x => ExactAtom x → PrintableAtom x) s := by
  induction h with
  | parsed h =>
    have hresult := (printableContent_of_session h).result
    refine leavesAll_and_imp ?_ _ hresult hresult
    exact fun _ hatom _ _ => hatom
  | ofList _ hnew ih =>
    rw [newSexpList_eq hnew]
    exact ⟨ih, trivial⟩
  | ofBinary _ hnew =>
    rw [newSexpBinaryAtom_eq hnew]
    exact ⟨fun hexact => hexact, trivial⟩
  | ofAtom hnew =>
    have haty := newSexpAtom_ne_binary hnew
    obtain ⟨val, rfl, hlen, htext, hsize⟩ := newSexpAtom_eq hnew
    rw [← htext] at hsize
    refine ⟨fun _ => ⟨haty, Nat.succ_pos _, hlen, le_refl _, ?_, ?_⟩, trivial⟩ <;> omega
  | link _ _ ihx ihy => exact leavesAll_append.mpr ⟨ihx, ihy⟩
  | head _ ih => exact ⟨ih.1, trivial⟩
  | next _ ih => exact ih.2
  | children _ ih => exact ih.1

/-- What the constructors and the calls of the parser make can be printed, as long as every binary
atom has the bytes that its length counts. -/
theorem printable_of_built (h : Built s) (hexact : LeavesAll ExactAtom s) : PrintableAll s :=
  printableAll_of_leaves s (leavesAll_and_imp (fun _ hatom hexact => hatom hexact) s
    (leaves_of_built h) hexact)

/-- `print_sexp` on what the constructors and the calls of the parser make stays inside its buffer
exactly when it gets its copy and its stack, and no blob clashes with the end of the buffer. -/
theorem built_inside {buf : List Byte} {size : Nat} {errno : ErrCode} (h : Built (x :: xs))
    (hexact : LeavesAll ExactAtom (x :: xs)) (hbuf : buf.length = size) (hsize : 0 < size) :
    PrintsInside g buf size (x :: xs) errno ↔
      HeadCopied g x ∧
        ∀ ps w', (Walk.start g x.tree (headAllocs x)).Puts g ps w' → ¬ Clash size 0 ps :=
  print_sexp_inside (printable_of_built h hexact).1 hbuf hsize xs

end Constructors

end Sfsexp.Proofs
