import Sfsexp.Proofs.AtomBuffer

/-!
# What a denied request leaves

The ways in which a round returns with the error of a failed allocation, and the locals it leaves.
-/

namespace Sfsexp.Proofs

open Sfsexp

section Requests

variable {env : Env} {l : Locals} {c : Byte} {R : Return}

/-- A return with the locals `r` and the cursor at `t`. -/
structure LeftAt (r : Regs) (t : Nat) (R : Return) : Prop where
  regs : R.cc.toRegs = r
  pos : R.cc.lastPos = some t

/-- What the next call starts with. -/
def resumed (r : Regs) (t : Nat) : Locals :=
  { toRegs := r, t := t, elts := 0, sx := [], allocs := 0, events := [] }

lemma LeftAt.enter {r : Regs} {t : Nat} (h : LeftAt r t R) : R.cc.enter 0 = resumed r t := by
  rw [Pcont.enter, h.regs, h.pos]
  rfl

lemma leftAt_of_save {e : ErrCode} {xs : List Sexp}
    (h : (.error (l.save e xs) : Exec Locals) = .error (.ret R)) : LeftAt l.toRegs l.t R := by
  rw [Except.error.injEq, Locals.save, Stop.ret.injEq] at h
  subst h
  exact ⟨rfl, rfl⟩

lemma of_bind_ret {x : Exec Locals} {f : Locals → Exec Locals} (h : x >>= f = .error (.ret R)) :
    x = .error (.ret R) ∨ ∃ m, x = .ok m ∧ f m = .error (.ret R) := by
  cases x with
  | ok m => exact .inr ⟨m, rfl, h⟩
  | error s => exact .inl h

lemma writeCur_ne_ret : writeCur c l ≠ .error (.ret R) := by
  rw [writeCur]
  split_ifs <;> rintro ⟨⟩

lemma overwrite_ne_ret : overwrite c l ≠ .error (.ret R) := by
  unfold overwrite
  split
  · rintro ⟨⟩
  · split_ifs <;> rintro ⟨⟩

/-- The buffer that could not be grown is kept, or not. -/
lemma grow_ret {keep : Bool} (h : grow env keep l = .error (.ret R)) :
    l.valUsed = l.valAllocated ∧
      LeftAt { l.toRegs with val := if keep then l.val else [] } l.t R := by
  rw [grow] at h
  by_cases hfull : l.valUsed = l.valAllocated
  · rw [if_pos hfull] at h
    by_cases hgrant : env.alloc l.allocs = true
    · rw [if_pos hgrant] at h
      cases h
    · rw [if_neg hgrant] at h
      exact ⟨hfull, leftAt_of_save h⟩
  · rw [if_neg hfull] at h
    cases h

/-- What a denied growth leaves: the byte is stored and counted, and the cursor stands on it. -/
lemma store_ret (h : store env c l = .error (.ret R)) :
    l.vcur < l.val.length ∧ l.valUsed + 1 = l.valAllocated ∧
      LeftAt { l.toRegs with val := l.val.set l.vcur c, valUsed := l.valUsed + 1 } l.t R := by
  rcases of_bind_ret h with h | ⟨m, hm, h⟩
  · exact absurd h writeCur_ne_ret
  · rw [writeCur] at hm
    split_ifs at hm with hcell
    obtain rfl := Except.ok.inj hm
    obtain ⟨hfull, hR⟩ := grow_ret h
    exact ⟨hcell, hfull, hR⟩

lemma storeEsc_ret (h : storeEsc env c l = .error (.ret R)) :
    l.vcur < l.val.length ∧ l.valUsed + 1 = l.valAllocated ∧
      LeftAt { l.toRegs with val := l.val.set l.vcur c, valUsed := l.valUsed + 1
                             esc := c == backslash } l.t R := by
  rcases of_bind_ret h with h | ⟨m, hm, h⟩
  · exact absurd h writeCur_ne_ret
  · rw [writeCur] at hm
    split_ifs at hm with hcell
    obtain rfl := Except.ok.inj hm
    obtain ⟨hfull, hR⟩ := grow_ret h
    exact ⟨hcell, hfull, hR⟩

end Requests

section Frames

variable {env : Env} {l l₀ : Locals} {c : Byte}

/-- All that a piece of a round that only works on the buffer leaves alone. -/
structure Beside (r r' : Regs) : Prop where
  stack : r'.stack = r.stack
  depth : r'.depth = r.depth
  qdepth : r'.qdepth = r.qdepth
  state : r'.state = r.state
  esc : r'.esc = r.esc
  mode : r'.mode = r.mode

lemma Beside.trans {r r' r'' : Regs} (h : Beside r r') (h' : Beside r' r'') : Beside r r'' :=
  ⟨h'.stack.trans h.stack, h'.depth.trans h.depth, h'.qdepth.trans h.qdepth,
    h'.state.trans h.state, h'.esc.trans h.esc, h'.mode.trans h.mode⟩

/-- A piece of a round that only works on the buffer. -/
abbrev BufferOnly (l : Locals) : Exec Locals → Prop :=
  Post (fun l' => Beside l.toRegs l'.toRegs ∧ l'.t = l.t)
    (fun R => Beside l.toRegs R.cc.toRegs ∧ R.cc.lastPos = some l.t) fun _ => True

lemma BufferOnly.beside {x : Exec Locals} (h : BufferOnly l x) (hb : Beside l₀.toRegs l.toRegs)
    (ht : l.t = l₀.t) : BufferOnly l₀ x := by
  refine h.mono ?_ ?_
  · rintro l₁ ⟨h₁, ht₁⟩
    exact ⟨hb.trans h₁, ht₁.trans ht⟩
  · rintro R ⟨h₁, ht₁⟩
    exact ⟨hb.trans h₁, ht₁.trans (congrArg some ht)⟩

lemma BufferOnly.bind {x : Exec Locals} {f : Locals → Exec Locals} (hx : BufferOnly l x)
    (hf : ∀ l', BufferOnly l' (f l')) : BufferOnly l (x >>= f) :=
  Post.bind hx fun l₁ h₁ => (hf l₁).beside h₁.1 h₁.2

lemma bufferOnly_writeCur : BufferOnly l (writeCur c l) := by
  rw [writeCur]
  split_ifs
  · exact ⟨⟨rfl, rfl, rfl, rfl, rfl, rfl⟩, rfl⟩
  · trivial

lemma bufferOnly_need : BufferOnly l (need env l) := by
  rw [need]
  split_ifs <;> exact ⟨⟨rfl, rfl, rfl, rfl, rfl, rfl⟩, rfl⟩

lemma bufferOnly_grow {keep : Bool} : BufferOnly l (grow env keep l) := by
  rw [grow]
  by_cases hfull : l.valUsed = l.valAllocated
  · rw [if_pos hfull]
    by_cases hgrant : env.alloc l.allocs = true
    · rw [if_pos hgrant]
      exact ⟨⟨rfl, rfl, rfl, rfl, rfl, rfl⟩, rfl⟩
    · rw [if_neg hgrant]
      exact ⟨⟨rfl, rfl, rfl, rfl, rfl, rfl⟩, rfl⟩
  · rw [if_neg hfull]
    exact ⟨⟨rfl, rfl, rfl, rfl, rfl, rfl⟩, rfl⟩

lemma bufferOnly_store : BufferOnly l (store env c l) :=
  bufferOnly_writeCur.bind fun l₁ =>
    (@bufferOnly_grow env { l₁ with valUsed := l₁.valUsed + 1 } true).beside
      ⟨rfl, rfl, rfl, rfl, rfl, rfl⟩ rfl

lemma bufferOnly_closingQuote : BufferOnly l (closingQuote env l) := by
  rw [closingQuote]
  split_ifs
  · exact bufferOnly_store
  · exact ⟨⟨rfl, rfl, rfl, rfl, rfl, rfl⟩, rfl⟩

lemma bufferOnly_emit {aty : AtomT} : BufferOnly l (emit env aty l) := by
  rw [emit, fire_eq]
  split_ifs <;> exact ⟨⟨rfl, rfl, rfl, rfl, rfl, rfl⟩, rfl⟩

/-- A piece whose failed requests leave the locals `l` but for the buffer. -/
abbrev Denies (l : Locals) : Exec Locals → Prop :=
  Post (fun _ => True)
    (fun R => R.cc.error = .memory → Beside l.toRegs R.cc.toRegs ∧ R.cc.lastPos = some l.t)
    fun _ => True

lemma BufferOnly.denies {x : Exec Locals} {f : Locals → Exec Locals} (hx : BufferOnly l x)
    (hf : ∀ l', Beside l.toRegs l'.toRegs → l'.t = l.t → Denies l (f l')) : Denies l (x >>= f) :=
  Post.bind (hx.mono (fun _ h => h) fun _ h _ => h) fun l' h => hf l' h.1 h.2

lemma Denies.beside {x : Exec Locals} (h : Denies l x) (hb : Beside l₀.toRegs l.toRegs)
    (ht : l.t = l₀.t) : Denies l₀ x := by
  refine h.mono (fun _ h => h) fun R hR hmem => ?_
  obtain ⟨h₁, ht₁⟩ := hR hmem
  exact ⟨hb.trans h₁, ht₁.trans (congrArg some ht)⟩

lemma Beside.refl (r : Regs) : Beside r r := ⟨rfl, rfl, rfl, rfl, rfl, rfl⟩

/-- The end of a token: the terminator, the element and the buffer for the next token. -/
lemma denies_end (used quoted : Locals → Locals) (aty : Locals → AtomT)
    {after : Locals → Exec Locals} (hused : ∀ l, Beside l.toRegs (used l).toRegs ∧ (used l).t = l.t)
    (hquoted : ∀ l, Beside l.toRegs (quoted l).toRegs ∧ (quoted l).t = l.t)
    (hafter : ∀ l₁ R, after l₁ = .error (.ret R) → R.cc.error ≠ .memory) :
    Denies l (do
      let l ← writeCur nul l
      let l ← need env (used l)
      let l ← emit env (aty l) (quoted l)
      after l) := by
  refine bufferOnly_writeCur.denies fun l₁ h₁ ht₁ => ?_
  obtain ⟨hu, htu⟩ := hused l₁
  refine Denies.beside (BufferOnly.denies bufferOnly_need fun l₂ h₂ ht₂ => ?_) (h₁.trans hu) (htu.trans ht₁)
  obtain ⟨hq, htq⟩ := hquoted l₂
  refine Denies.beside (BufferOnly.denies bufferOnly_emit fun l₃ h₃ ht₃ => ?_) (h₂.trans hq) (htq.trans ht₂)
  specialize hafter l₃
  cases hx : after l₃ with
  | ok _ => trivial
  | error s =>
    cases s with
    | ret R => exact fun hmem => absurd hmem (hafter R hx)
    | fault _ => trivial

lemma denies_endQuoted : Denies l (endQuoted env l) := by
  refine bufferOnly_closingQuote.denies fun l₁ h₁ ht₁ => ?_
  refine Denies.beside (denies_end (fun l => { l with valUsed := l.valUsed + 1 })
    (fun l => { l with squoted := false }) (fun l => if l.squoted then .squote else .dquote)
    (fun _ => ⟨⟨rfl, rfl, rfl, rfl, rfl, rfl⟩, rfl⟩)
    (fun _ => ⟨⟨rfl, rfl, rfl, rfl, rfl, rfl⟩, rfl⟩) ?_) h₁ ht₁
  intro l₂ R h
  split at h
  · cases h
    simp
  · cases h

end Frames

section Exits

variable {env : Env} {l : Locals} {c : Byte} {R : Return}

/-- The byte starts a bare atom. -/
structure OpensBare (c : Byte) : Prop where
  white : isWhite c = false
  semicolon : c ≠ semicolon
  lparen : c ≠ lparen
  rparen : c ≠ rparen
  dquote : c ≠ dquote
  tick : c ≠ tick

/-- A list that was counted, and will be counted again. -/
structure CountedTwice (l : Locals) (R : Return) : Prop where
  state : R.cc.state = .s2
  depth : R.cc.depth = l.depth + 1
  mode : R.cc.mode = l.mode
  pos : R.cc.lastPos = some l.t

/-- What is left of a bare atom whose element was denied. -/
def deniedBare (r : Regs) : Regs :=
  { r with val := r.val.set r.vcur nul, valUsed := r.valUsed + 1 }

/-- The closing quote is read again, or a byte of the string is. -/
lemma state5Rest_ret (h : state5Rest env c l = .error (.ret R)) (hmem : R.cc.error = .memory) :
    (c = dquote ∧ Beside { l.toRegs with state := .s6 } R.cc.toRegs ∧ R.cc.lastPos = some l.t) ∨
      c ≠ dquote ∧ store env c l = .error (.ret R) := by
  rw [state5Rest] at h
  split_ifs at h with hquote
  · have hdenies := @denies_endQuoted env { l with state := .s6 }
    rw [h] at hdenies
    exact .inl ⟨hquote, hdenies hmem⟩
  · rcases of_bind_ret h with h | ⟨_, -, h⟩
    · exact .inr ⟨hquote, h⟩
    · cases h

/-- The byte ends the quoted list. -/
def EndsQuotedList (l : Locals) (c : Byte) : Prop :=
  l.esc = false ∧ c = rparen ∧ l.qdepth - 1 = 0

/-- A quoted list that was read to its end and is gone. -/
structure LostList (l : Locals) (R : Return) : Prop where
  stack : R.cc.stack = l.stack
  depth : R.cc.depth = l.depth
  state : R.cc.state = .s1
  mode : R.cc.mode = l.mode
  pos : R.cc.lastPos = some (l.t + 1)

/-- The requests that a round on the byte `c` makes, with what is left when one is denied. -/
inductive Failure (env : Env) (c : Byte) (l : Locals) (R : Return) : Prop where
  | first (hs : l.state = .s1) (hstart : OpensBare c)
      (hleft : LeftAt { l.toRegs with
        vcur := 0, val := [], esc := c == backslash, valUsed := l.valUsed + 1 } l.t R)
  | list (hs : l.state = .s2) (htwice : CountedTwice l R)
  | bareByte (hs : l.state = .s4) (hatom : isAtomByte c = true)
      (hesc : (l.esc && isEscapable c) = false) (hstore : storeEsc env c l = .error (.ret R))
  | bareElement (hs : l.state = .s4) (hatom : isAtomByte c = false)
      (hesc : (l.esc && isEscapable c) = false) (hno : env.alloc l.allocs = false)
      (hleft : LeftAt (deniedBare l.toRegs) l.t R)
  | bareBuffer (hs : l.state = .s4) (hatom : isAtomByte c = false)
      (hesc : (l.esc && isEscapable c) = false)
      (hleft : LeftAt { deniedBare l.toRegs with val := [] } l.t R)
  | string (hs : l.state = .s5) (hround : state5 env c l = .error (.ret R))
  | firstQuote (hs : l.state = .s7) (hquote : c = dquote)
      (hstore : store env dquote { l with state := .s5, vcur := 0, t := l.t + 1 } =
        .error (.ret R))
  | listByte (hs : l.state = .s8) (hstore : storeEsc env c (countParen c l) = .error (.ret R))
  | quotedList (hs : l.state = .s8) (hends : EndsQuotedList l c) (hlost : LostList l R)
  | listString (hs : l.state = .s10)
      (hstore : storeEsc env c (if c = dquote ∧ l.esc = false then { l with state := .s8 } else l) =
        .error (.ret R))

/-- A failure inside double quotes leaves state 5 or 6. -/
lemma state_of_string (hs : l.state = .s5) (h : state5 env c l = .error (.ret R))
    (hmem : R.cc.error = .memory) : R.cc.state ≠ .s4 := by
  have hrest : ∀ {c : Byte} {l : Locals}, l.state = .s5 → state5Rest env c l = .error (.ret R) →
      R.cc.state ≠ .s4 := by
    intro c l hs h
    rcases state5Rest_ret h hmem with ⟨-, hb, -⟩ | ⟨-, h⟩
    · have hstate : R.cc.state = .s6 := hb.state
      simp [hstate]
    · obtain ⟨-, -, hleft⟩ := store_ret h
      simp [hleft.regs, hs]
  rw [state5] at h
  split_ifs at h with hp
  · rcases of_bind_ret h with h | ⟨l₁, hover, h⟩
    · exact absurd h overwrite_ne_ret
    rw [Env.read] at h
    split at h
    · refine hrest ?_ h
      rw [overwrite] at hover
      split at hover
      · cases hover
      · split_ifs at hover
        obtain rfl := Except.ok.inj hover
        exact hs
    · cases h
  · exact hrest hs h

/-- What was left shows that the element of a bare atom was denied. -/
lemma Failure.element {r : Regs} {t : Nat} (h : Failure env c l R) (hc : c ≠ nul)
    (hmem : R.cc.error = .memory) (hs : r.state = .s4) (hcell : r.vcur < r.val.length)
    (hR : LeftAt (deniedBare r) t R) :
    l.state = .s4 ∧ isAtomByte c = false ∧ (l.esc && isEscapable c) = false ∧
      env.alloc l.allocs = false := by
  have hs4 : R.cc.state = .s4 := (congrArg Regs.state hR.regs).trans hs
  have hval : R.cc.val = r.val.set r.vcur nul := congrArg Regs.val hR.regs
  have hcur : R.cc.vcur = r.vcur := by
    rw [hR.regs]
    rfl
  cases h with
  | first hs₁ hstart hleft => simp [hleft.regs, hs₁] at hs4
  | list hs₂ htwice => simp [htwice.state] at hs4
  | bareByte hs₄ hatom hesc hstore =>
    -- the byte was stored where the other failure left the terminator
    obtain ⟨hcell', -, hleft⟩ := storeEsc_ret hstore
    have hval' : R.cc.val = l.val.set l.vcur c := congrArg Regs.val hleft.regs
    have hcur' : R.cc.vcur = l.vcur := by rw [hleft.regs]
    rw [hcur.symm.trans hcur'] at hcell hval
    have hbyte := congrArg (·[l.vcur]?) (hval.symm.trans hval')
    simp only [List.getElem?_set_self hcell, List.getElem?_set_self hcell', Option.some.injEq]
      at hbyte
    exact absurd hbyte.symm hc
  | bareElement hs₄ hatom hesc hno => exact ⟨hs₄, hatom, hesc, hno⟩
  | bareBuffer hs₄ hatom hesc hleft =>
    have hnone : R.cc.val = [] := congrArg Regs.val hleft.regs
    have hlen := congrArg List.length (hval.symm.trans hnone)
    rw [List.length_set, List.length_nil] at hlen
    omega
  | string hs₅ hround => exact absurd hs4 (state_of_string hs₅ hround hmem)
  | firstQuote hs₇ hquote hstore =>
    obtain ⟨-, -, hleft⟩ := store_ret hstore
    simp [hleft.regs] at hs4
  | listByte hs₈ hstore =>
    obtain ⟨-, -, hleft⟩ := storeEsc_ret hstore
    have hstate : (countParen c l).state = .s4 := (congrArg Regs.state hleft.regs).symm.trans hs4
    rw [countParen] at hstate
    split_ifs at hstate <;> simp [hs₈] at hstate
  | quotedList hs₈ hends hlost => simp [hlost.state] at hs4
  | listString hs₁₀ hstore =>
    obtain ⟨-, -, hleft⟩ := storeEsc_ret hstore
    rw [hleft.regs] at hs4
    dsimp only at hs4
    split_ifs at hs4
    simp [hs₁₀] at hs4

end Exits

end Sfsexp.Proofs
