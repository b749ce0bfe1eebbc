import Sfsexp.Proofs.Refinement
import Sfsexp.Proofs.Reading
import Sfsexp.Proofs.Rounds
import Sfsexp.Proofs.RoundTrip

/-!
# Text atoms in inline binary mode

The rounds of `cparse_sexp` on the text of an atom inside a list, from the byte that starts the atom
to the byte that stands behind it.
-/

namespace Sfsexp.Proofs

open Sfsexp Spec

/-- The locals in inline binary mode while lists with the children `L` are open. -/
structure Inline (L : List (List Sexp)) (l : Regs) : Prop where
  mode : l.mode = .inlineBinary
  room : Room l
  esc : l.esc = false
  stack : StackOk l.stack L
  depth : l.depth = L.length

/-- In the state `s`, with nothing in the buffer. -/
structure Gap (s : State) (L : List (List Sexp)) (l : Regs) : Prop extends Inline L l where
  state : l.state = s
  used : l.valUsed = 0
  squoted : l.squoted = false
  qdepth : l.qdepth = 0

/-- In the state `s`, in the middle of a token whose bytes so far are `text`. -/
structure Token (s : State) (squoted : Bool) (qdepth : Int) (text : List Byte)
    (L : List (List Sexp)) (l : Regs) : Prop extends Inline L l where
  state : l.state = s
  cursor : l.vcur = l.valUsed
  text : l.val.take l.valUsed = text
  squoted : l.squoted = squoted
  qdepth : l.qdepth = qdepth

/-- The element `x` was added to the children `T` of the innermost open list. -/
def Gained (x : Tree) (s : State) (T : List Sexp) (Ls : List (List Sexp)) (l : Locals) : Prop :=
  ∃ y, y.tree = x ∧ Whole y ∧ Gap s ((T ++ [y]) :: Ls) l.toRegs

/-- What is still ahead when the byte `c` behind an element was dealt with. A space is passed over
with the element; a closing paren is left for the next round. -/
def behind (c : Byte) (w : List Byte) : List Byte := if c = rparen then c :: w else w

def stateBehind (c : Byte) : State := if c = rparen then .s3 else .s1

/-- The bytes behind an element of a list. -/
def Separates (c : Byte) : Prop := c = space ∨ c = rparen

section Steps

variable {l : Regs} {c : Byte} {text v : List Byte} {s s' : State} {sq sq' : Bool} {qd qd' : Int}
  {L : List (List Sexp)} {a n : Nat}

lemma Gap.to (h : Gap s L l) : Gap s' L { l with state := s', vcur := n } :=
  ⟨⟨h.mode, ⟨h.room.cells, h.room.free⟩, h.esc, h.stack, h.depth⟩, rfl, h.used, h.squoted, h.qdepth⟩

/-- A token starts. -/
lemma Gap.token (h : Gap s L l) : Token s' sq 0 [] L { l with state := s', vcur := 0, squoted := sq } := by
  refine ⟨⟨h.mode, ⟨h.room.cells, h.room.free⟩, h.esc, h.stack, h.depth⟩, rfl, h.used.symm, ?_, rfl,
    h.qdepth⟩
  change l.val.take l.valUsed = []
  rw [h.used, List.take_zero]

/-- The state alone is changed. -/
lemma Token.to (h : Token s sq qd text L l) : Token s' sq qd text L { l with state := s' } :=
  ⟨⟨h.mode, ⟨h.room.cells, h.room.free⟩, h.esc, h.stack, h.depth⟩, rfl, h.cursor, h.text, h.squoted,
    h.qdepth⟩

/-- A byte was stored behind the text. -/
lemma Inline.pushed (h : Inline L l) (htext : l.val.take l.valUsed = text) {l₀ : Locals}
    (happ : Appended c l₀ v a) (hval : l₀.val = l.val) (hused : l₀.valUsed = l.valUsed) {e : Bool}
    (he : e = false) :
    Token s' sq' qd' (text ++ [c]) L { l with
      val := v, valAllocated := a, valUsed := l.valUsed + 1, vcur := l.valUsed + 1, esc := e
      state := s', qdepth := qd', squoted := sq' } := by
  have hcells := happ.cells
  have hfree := happ.free
  have happended := happ.text
  rw [hused] at hfree happended
  rw [hval, htext] at happended
  exact ⟨⟨h.mode, ⟨hcells, hfree⟩, he, h.stack, h.depth⟩, rfl, rfl, happended, rfl, rfl⟩

end Steps

section Rounds

variable {env : Env} {l : Locals} {c : Byte} {u w text : List Byte} {s : State} {sq : Bool} {qd : Int}
  {L : List (List Sexp)}

lemma Separates.plain (hc : Separates c) :
    isAtomByte c = false ∧ c ≠ nul ∧ c ≠ dquote ∧ c ≠ lparen ∧ c ≠ letterB ∧ c ≠ hash := by
  rcases hc with rfl | rfl <;> decide

/-- The byte behind an element. -/
lemma settle (hc : Separates c) (hg : Gap .s1 L l.toRegs) (hrest : Rest env l.t (c :: w)) :
    Gets env (behind c w) (fun l' => Gap (stateBehind c) L l'.toRegs) l := by
  have hs := hg.state
  have hhead : cparseHead env l = state1 env c l := by
    rw [head_of_rest hrest hc.plain.2.1 (by simp [hs]), switch, hs]
  rcases hc with rfl | rfl
  · have hround : cparseHead env l = .ok { l with t := l.t + 1, state := .s1, vcur := l.vcur } := by
      rw [hhead, ← hs]
      rfl
    exact .step hround (.here hrest.tail hg.to)
  · have hround : cparseHead env l = .ok { l with state := .s3, vcur := l.vcur } := hhead
    exact .step hround (.here hrest hg.to)

lemma settle_gained {x : Tree} {T : List Sexp} {Ls : List (List Sexp)} (hc : Separates c)
    (hg : Gained x .s1 T Ls l) (hrest : Rest env l.t (c :: w)) :
    Gets env (behind c w) (Gained x (stateBehind c) T Ls) l := by
  obtain ⟨y, htree, hwhole, hgap⟩ := hg
  refine (settle hc hgap hrest).mono ?_
  intro l' hl'
  exact ⟨y, htree, hwhole, hl'⟩

end Rounds

section Bare

variable {env : Env} {l : Locals} {c : Byte} {u w text : List Byte} {s : State} {sq : Bool} {qd : Int}
  {L : List (List Sexp)}

lemma ne_nul_of_atomByte (h : isAtomByte c = true) : c ≠ nul := by
  rintro rfl
  exact absurd h (by decide)

/-- A byte is stored, with the escape flag or without it. -/
lemma Token.storeEsc (h : env.Succeeds) (ht : Token s sq qd text L l.toRegs) (hb : c ≠ backslash) :
    ∃ m, Sfsexp.storeEsc env c l = .ok m ∧ m.t = l.t ∧ Token s sq qd (text ++ [c]) L m.toRegs := by
  obtain ⟨v, a, k, hg, happ⟩ := storeEsc_ok h ht.room ht.cursor c
  refine ⟨_, hg, rfl, ?_⟩
  rw [← ht.state, ← ht.squoted, ← ht.qdepth]
  exact ht.toInline.pushed ht.text happ rfl rfl (by simpa using hb)

lemma Token.store (h : env.Succeeds) (ht : Token s sq qd text L l.toRegs) :
    ∃ m, Sfsexp.store env c l = .ok m ∧ m.t = l.t ∧ Token s sq qd (text ++ [c]) L m.toRegs := by
  obtain ⟨v, a, k, hg, happ⟩ := store_ok h ht.room ht.cursor c
  refine ⟨_, hg, rfl, ?_⟩
  rw [← ht.state, ← ht.squoted, ← ht.qdepth]
  exact ht.toInline.pushed ht.text happ rfl rfl ht.esc

lemma bare_byte (h : env.Succeeds) (ht : Token .s4 sq 0 text L l.toRegs) (ha : isAtomByte c = true)
    (hb : c ≠ backslash) (hrest : Rest env l.t (c :: u)) :
    Gets env u (fun l' => Token .s4 sq 0 (text ++ [c]) L l'.toRegs) l := by
  have hs := ht.state
  obtain ⟨m, hstore, hm, htoken⟩ := ht.storeEsc h hb
  have hswitch : switch env c l = state4 env c l := by rw [switch, hs]
  have hround : cparseHead env l = .ok { m with t := m.t + 1 } := by
    rw [head_of_rest hrest (ne_nul_of_atomByte ha) (by simp [hs]), hswitch, state4, ht.esc,
      Bool.false_and, if_neg (by simp), if_pos ha, hstore, ok_bind]
  refine .step hround (.here ?_ htoken)
  dsimp only
  rw [hm]
  exact hrest.tail

/-- A run of bytes of a bare atom. -/
lemma bare_bytes (h : env.Succeeds) (ht : Token .s4 sq 0 text L l.toRegs)
    (ha : ∀ c ∈ u, isAtomByte c = true) (hb : backslash ∉ u) (hrest : Rest env l.t (u ++ w)) :
    Gets env w (fun l' => Token .s4 sq 0 (text ++ u) L l'.toRegs) l := by
  induction u generalizing l text with
  | nil => exact .here hrest (by simpa using ht)
  | cons c u ih =>
    obtain ⟨hc, hb⟩ := not_or.mp (mt List.mem_cons.mpr hb)
    refine (bare_byte h ht (ha c List.mem_cons_self) (Ne.symm hc) hrest).trans ?_
    intro m hrest' hm
    have hrun := ih hm (fun d hd => ha d (List.mem_cons_of_mem _ hd)) hb hrest'
    simpa using hrun

/-- The byte that ends a bare atom. -/
lemma bare_close (h : env.Succeeds) {T : List Sexp} {Ls : List (List Sexp)}
    (ht : Token .s4 sq 0 text (T :: Ls) l.toRegs) (hn : nul ∉ text) (hc : Separates c)
    (hrest : Rest env l.t (c :: w)) :
    Gets env (behind c w) (Gained (.atom (bareOf sq) text) (stateBehind c) T Ls) l := by
  have hs := ht.state
  have hlt : l.vcur < l.val.length := by
    rw [ht.cursor, ht.room.cells]
    exact ht.room.free
  have htype : bareType l = bareOf sq := by rw [bareType, ht.squoted, bareOf]
  have hn' : nul ∉ l.val.take l.valUsed := by rwa [ht.text]
  obtain ⟨s, hend, hok⟩ := endBare_open (c := c) h hlt ht.stack
  have hswitch : switch env c l = state4 env c l := by rw [switch, hs]
  have hround : cparseHead env l = endBare env c l := by
    rw [head_of_rest hrest hc.plain.2.1 (by simp [hs]), hswitch, state4, ht.esc, Bool.false_and,
      if_neg (by simp), hc.plain.1, if_neg (by simp)]
  rw [hend] at hround
  have hgained : ∀ l', l' = afterBare c
      { emitted env (bareType l) (terminated l) with stack := s } →
      Gained (.atom (bareOf sq) text) (stateBehind c) T Ls l' := by
    rintro l' rfl
    refine ⟨atomOf (bareType l) (terminated l), ?_, ?_, ?_⟩
    · rw [atomOf, Sexp.tree, terminated, cstr_terminated ht.room ht.cursor hn', ht.text, htype]
    · have hsealed : Sealed (atomOf (bareType l) (terminated l)) :=
        sealed_terminated ht.room ht.cursor hn' (Nat.le_succ _) (Nat.le_refl _)
      exact hsealed.whole
    · have hroom : ∀ l' : Regs, l'.val = env.fresh env.params.startSize →
          l'.valAllocated = env.params.startSize → l'.valUsed = 0 → Room l' :=
        fun l' => Room.fresh
      have hdepth : l.depth = ((T ++ [atomOf (bareType l) (terminated l)]) :: Ls).length := by
        rw [ht.depth]
        simp
      rcases hc with rfl | rfl
      · exact ⟨⟨ht.mode, hroom _ rfl rfl rfl, ht.esc, hok, hdepth⟩, rfl, rfl, rfl, ht.qdepth⟩
      · exact ⟨⟨ht.mode, hroom _ rfl rfl rfl, ht.esc, hok, hdepth⟩, rfl, rfl, rfl, ht.qdepth⟩
  refine .step hround (.here ?_ (hgained _ rfl))
  rcases hc with rfl | rfl
  · exact hrest.tail
  · exact hrest

end Bare

section Basic

variable {env : Env} {l : Locals} {c : Byte} {t u w text : List Byte} {s : State} {sq : Bool} {qd : Int}
  {L : List (List Sexp)}

lemma gap_head (hg : Gap .s1 L l.toRegs) (hc : c ≠ nul) (hrest : Rest env l.t (c :: w)) :
    cparseHead env l = state1 env c l := by
  have hs := hg.state
  rw [head_of_rest hrest hc (by simp [hs]), switch, hs]

/-- The first byte of a bare atom. -/
lemma bare_open (h : env.Succeeds) (hg : Gap .s1 L l.toRegs) (ha : isAtomByte c = true)
    (hsemi : c ≠ semicolon) (hb : c ≠ backslash) (hrest : Rest env l.t (c :: w)) :
    Gets env w (fun l' => Token (if c = hash then .s12 else .s4) false 0 [c] L l'.toRegs) l := by
  obtain ⟨hwhite, hl, hr, hd, htick⟩ := atomByte_plain ha
  obtain ⟨v, a, k, hrun, happ⟩ := head_ok h hg.room hg.used c
  have hstate : (if c = hash ∧ l.mode = .inlineBinary then State.s12 else .s4) =
      if c = hash then .s12 else .s4 := by simp [hg.mode]
  have hround : cparseHead env l = .ok { l with
      val := v, valAllocated := a, valUsed := 1, vcur := 1, esc := c == backslash, allocs := k
      state := if c = hash then .s12 else .s4, t := l.t + 1 } := by
    rw [gap_head hg (ne_nul_of_atomByte ha) hrest, state1, hwhite, if_neg (by simp), if_neg hsemi,
      if_neg hl, if_neg hr, if_neg hd, if_neg htick, ← bind_assoc, hrun, ok_bind, hstate]
  refine .step hround (.here hrest.tail ?_)
  have htext : l.val.take l.valUsed = [] := by rw [hg.used, List.take_zero]
  have hpushed : Token (if c = hash then .s12 else .s4) false 0 ([] ++ [c]) L { l.toRegs with
      val := v, valAllocated := a, valUsed := l.valUsed + 1, vcur := l.valUsed + 1
      esc := c == backslash, state := if c = hash then .s12 else .s4, qdepth := 0
      squoted := false } := hg.toInline.pushed htext happ rfl rfl (by simpa using hb)
  rw [hg.used] at hpushed
  have hsame : ({ l with
      val := v, valAllocated := a, valUsed := 1, vcur := 1, esc := c == backslash, allocs := k
      state := if c = hash then .s12 else .s4, t := l.t + 1 } : Locals).toRegs = { l.toRegs with
      val := v, valAllocated := a, valUsed := 0 + 1, vcur := 0 + 1, esc := c == backslash
      state := if c = hash then .s12 else .s4, squoted := false, qdepth := 0 } := by
    rw [← hg.squoted, ← hg.qdepth]
  rw [hsame]
  exact hpushed

/-- After `#` or `#b` the atom turns out to be a bare one. -/
lemma bare_after_hash (ht : Token s false 0 text L l.toRegs) (hc : c ≠ nul)
    (hs : s = .s12 ∧ c ≠ letterB ∨ s = .s13 ∧ c ≠ hash) (hrest : Rest env l.t (c :: w)) :
    Gets env (c :: w) (fun l' => Token .s4 false 0 text L l'.toRegs) l := by
  have hstate := ht.state
  rcases hs with ⟨rfl, hb⟩ | ⟨rfl, hh⟩
  · have hround : cparseHead env l = .ok { l with state := .s4 } := by
      rw [head_of_rest hrest hc (by simp [hstate]), switch, hstate]
      exact if_neg hb
    exact .step hround (.here hrest ht.to)
  · have hround : cparseHead env l = .ok { l with state := .s4 } := by
      rw [head_of_rest hrest hc (by simp [hstate]), switch, hstate]
      exact if_neg hh
    exact .step hround (.here hrest ht.to)

/-- The `b` behind `#`. -/
lemma hash_b (h : env.Succeeds) (ht : Token .s12 false 0 text L l.toRegs)
    (hrest : Rest env l.t (letterB :: w)) :
    Gets env w (fun l' => Token .s13 false 0 (text ++ [letterB]) L l'.toRegs) l := by
  have hs := ht.state
  obtain ⟨m, hstore, hm, htoken⟩ := ht.storeEsc (c := letterB) h (by decide)
  have hswitch : switch env letterB l = state12 env letterB l := by rw [switch, hs]
  have hround : cparseHead env l = .ok { m with state := .s13, t := m.t + 1 } := by
    rw [head_of_rest hrest (by decide) (by simp [hs]), hswitch, state12, if_pos rfl, hstore, ok_bind]
  refine .step hround (.here ?_ htoken.to)
  dsimp only
  rw [hm]
  exact hrest.tail

/-- The rest of an atom that starts with `#` and is no blob. -/
lemma hash_bytes (h : env.Succeeds) (ht : Token .s12 false 0 [hash] L l.toRegs)
    (ha : ∀ c ∈ t, isAtomByte c = true) (hb : backslash ∉ t) (hblob : ¬ [letterB, hash] <+: t)
    (hc : Separates c) (hrest : Rest env l.t (t ++ c :: w)) :
    Gets env (c :: w) (fun l' => Token .s4 false 0 (hash :: t) L l'.toRegs) l := by
  obtain ⟨-, hnul, -, -, hletter, hhash⟩ := hc.plain
  cases t with
  | nil => exact bare_after_hash ht hnul (.inl ⟨rfl, hletter⟩) hrest
  | cons d t =>
    have had := ha d List.mem_cons_self
    by_cases hd : d = letterB
    · subst hd
      refine (hash_b h ht hrest).trans ?_
      intro m hrest hm
      obtain ⟨-, hbt⟩ := not_or.mp (mt List.mem_cons.mpr hb)
      have hat : ∀ c ∈ t, isAtomByte c = true := fun c hc => ha c (List.mem_cons_of_mem _ hc)
      cases t with
      | nil => exact bare_after_hash hm hnul (.inr ⟨rfl, hhash⟩) hrest
      | cons e t =>
        have he : e ≠ hash := by
          rintro rfl
          exact hblob ⟨t, rfl⟩
        refine (bare_after_hash hm (ne_nul_of_atomByte (hat e List.mem_cons_self))
          (.inr ⟨rfl, he⟩) hrest).trans ?_
        intro m hrest hm
        exact bare_bytes h hm hat hbt hrest
    · refine (bare_after_hash ht (ne_nul_of_atomByte had) (.inl ⟨rfl, hd⟩) hrest).trans ?_
      intro m hrest hm
      exact bare_bytes h hm ha hb hrest

/-- The text of a basic atom, with what stands behind it. -/
lemma basic_run (h : env.Succeeds) {T : List Sexp} {Ls : List (List Sexp)}
    (hg : Gap .s1 (T :: Ls) l.toRegs) (hread : ReadableAtom .basic text)
    (hblob : ¬ [hash, letterB, hash] <+: text) (hc : Separates c)
    (hrest : Rest env l.t (text ++ c :: w)) :
    Gets env (behind c w) (Gained (.atom .basic text) (stateBehind c) T Ls) l := by
  obtain ⟨hne, hatom, hsemi, hb⟩ := hread
  obtain ⟨d, t, rfl⟩ := List.exists_cons_of_ne_nil hne
  obtain ⟨hd, hbt⟩ := not_or.mp (mt List.mem_cons.mpr hb)
  have hat : ∀ c ∈ t, isAtomByte c = true := fun c hc => hatom c (List.mem_cons_of_mem _ hc)
  have hn : nul ∉ d :: t := fun hin => absurd (hatom nul hin) (by decide)
  have hopen := bare_open h hg (hatom d List.mem_cons_self) (by simpa using hsemi) (Ne.symm hd) hrest
  have hbody : Gets env (c :: w) (fun l' => Token .s4 false 0 (d :: t) (T :: Ls) l'.toRegs) l := by
    refine hopen.trans ?_
    intro m hahead hm
    by_cases hdh : d = hash
    · subst hdh
      rw [if_pos rfl] at hm
      refine hash_bytes h hm hat hbt ?_ hc hahead
      rintro ⟨t', rfl⟩
      exact hblob ⟨t', rfl⟩
    · rw [if_neg hdh] at hm
      exact bare_bytes h hm hat hbt hahead
  refine hbody.trans ?_
  intro m hrest hm
  exact bare_close h hm hn hc hrest

end Basic

end Sfsexp.Proofs
