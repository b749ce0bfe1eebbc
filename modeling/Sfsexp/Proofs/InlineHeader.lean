import Sfsexp.Proofs.ErrorCodes
import Sfsexp.Proofs.InlineBlobs
import Sfsexp.Spec.InlineSize

/-!
# Headers of inline binary atoms

The way of the parser through the header `#b#<size>` of a binary atom inside a list, when the header
comes in any number of chunks and the buffer of the size may have no memory to grow.
-/

namespace Sfsexp.Proofs

open Sfsexp Spec

section Denials

variable {α β : Type} {env : Env} {l : Locals} {c : Byte} {keep : Bool}

/-- The same call, with all requests granted. -/
def granting (env : Env) : Env := { env with alloc := fun _ => true }

lemma granting_succeeds : (granting env).Succeeds := fun _ => rfl

/-- The two runs are the same, unless the first one returns because a request is denied. -/
def SameOrDenied (env : Env) (x y : Exec α) : Prop :=
  x = y ∨ ∃ R, x = .error (.ret R) ∧ R.cc.error = .memory ∧ ¬ env.Succeeds

lemma grow_sameOrDenied : SameOrDenied env (grow env keep l) (grow (granting env) keep l) := by
  rw [grow, grow]
  by_cases hfull : l.valUsed = l.valAllocated
  · rw [if_pos hfull, if_pos hfull]
    by_cases halloc : env.alloc l.allocs = true
    · rw [if_pos halloc]
      exact .inl rfl
    · rw [if_neg halloc]
      exact .inr ⟨_, rfl, rfl, fun h => halloc (h _)⟩
  · rw [if_neg hfull, if_neg hfull]
    exact .inl rfl

lemma storeEsc_sameOrDenied : SameOrDenied env (storeEsc env c l) (storeEsc (granting env) c l) := by
  rw [storeEsc, storeEsc]
  cases writeCur c l with
  | error e => exact .inl rfl
  | ok m => exact grow_sameOrDenied

/-- A stored byte, unless there is no memory for it. -/
lemma storeEsc_cases (hr : Room l.toRegs) (hv : l.vcur = l.valUsed) (c : Byte) :
    (∃ v a k, storeEsc env c l =
        .ok { l with val := v, valAllocated := a, valUsed := l.valUsed + 1
                     vcur := l.valUsed + 1, esc := c == backslash, allocs := k } ∧
        Appended c l v a) ∨
      ∃ R, storeEsc env c l = .error (.ret R) ∧ R.cc.error = .memory ∧ ¬ env.Succeeds := by
  obtain ⟨v, a, k, hrun, happ⟩ := @storeEsc_ok (granting env) granting_succeeds l hr hv c
  rcases @storeEsc_sameOrDenied env l c with hsame | hdenied
  · exact .inl ⟨v, a, k, hsame.trans hrun, happ⟩
  · exact .inr hdenied

/-- The growth code behind a byte that was stored no later than it was counted. -/
lemma grow_cases (hlen : l.val.length = l.valAllocated) (hused : l.valUsed ≤ l.valAllocated)
    (hcur : l.vcur < l.valUsed) :
    (∃ v a p k, grow env keep l =
        .ok { l with val := v, valAllocated := a, vcur := p, allocs := k } ∧
        v.length = a ∧ l.valUsed < a ∧ p ≤ l.valUsed) ∨
      ∃ R, grow env keep l = .error (.ret R) ∧ R.cc.error = .memory ∧ ¬ env.Succeeds := by
  rw [grow]
  by_cases hfull : l.valUsed = l.valAllocated
  · rw [if_pos hfull]
    by_cases halloc : env.alloc l.allocs = true
    · rw [if_pos halloc]
      have hmore := env.params.grow_pos
      refine .inl ⟨_, _, _, _, rfl, ?_, by omega, le_refl _⟩
      rw [List.length_append, hlen, Setup.length_fresh]
    · rw [if_neg halloc]
      exact .inr ⟨_, rfl, rfl, fun h => halloc (h _)⟩
  · rw [if_neg hfull]
    exact .inl ⟨l.val, l.valAllocated, _, l.allocs, rfl, hlen, by omega, hcur⟩

end Denials

section Places

variable {env : Env} {l : Locals} {p q : Place} {c : Byte} {t : Nat} {u v w : List Byte}

lemma rest_of_unread (h : Unread env t u) : Rest env t u := ⟨h.1, h.2⟩

lemma unread_of_rest (h : Rest env t u) : Unread env t u := ⟨h.bytes, h.len⟩

lemma unread_unique (h : Unread env t u) (h' : Unread env t v) : u = v := by
  obtain ⟨⟨tail, hu⟩, hlen⟩ := h
  obtain ⟨⟨tail', hv⟩, hlen'⟩ := h'
  exact List.append_inj_left (hu.symm.trans hv) (by omega)

lemma upcoming_unique (h : Upcoming p u) (h' : Upcoming p v) : u = v := by
  obtain ⟨a, ha, rfl⟩ := h
  obtain ⟨b, hb, rfl⟩ := h'
  rw [unread_unique ha hb]

lemma unread_chunk (q : Chunk) : Unread q.env 0 q.bytes :=
  ⟨⟨[], rfl⟩, (Nat.zero_add _).symm⟩

/-- What the parser returns at the end of a chunk inside a list. -/
lemma chunk_end (hu : Unread env l.t []) (hdepth : 0 < l.depth) :
    ∃ R, cparseHead env l = .error (.ret R) ∧ R.cc.error = .incomplete ∧ R.cc.lastPos = none ∧
      R.cc.toRegs = l.toRegs := by
  have hopen : ¬ (l.depth = 0 ∧ 0 < l.elts) := by
    rintro ⟨hzero, -⟩
    omega
  have hfinish : ∃ R, finish env l = .ret R ∧ R.cc.error = .incomplete ∧ R.cc.lastPos = none ∧
      R.cc.toRegs = l.toRegs := by
    rw [finish, if_neg hopen, (rest_of_unread hu).get_end]
    exact ⟨_, rfl, rfl, rfl, rfl⟩
  obtain ⟨R, hR, hrest⟩ := hfinish
  refine ⟨R, ?_, hrest⟩
  have hend := hu.2
  rw [List.length_nil, Nat.add_zero] at hend
  by_cases h15 : l.state = .s15
  · rw [cparseHead, if_pos h15, if_pos hend.symm, hR]
  · rw [head_of_rest_nil (rest_of_unread hu) h15, hR]

/-- The call with the next chunk. -/
lemma upcoming_enter {R : Return} {q : Chunk} {later : List Chunk} (hu : Unread p.env p.locals.t [])
    (hall : R.cc.lastPos = none) (hlater : p.later = q :: later) (hp : Upcoming p w) :
    Upcoming ⟨q.env, R.cc.enter 0, later⟩ w := by
  obtain ⟨u, hu', htext⟩ := hp
  obtain rfl := unread_unique hu' hu
  have hstart : (R.cc.enter 0).t = 0 := by rw [Pcont.enter, hall, Option.getD_none]
  refine ⟨q.bytes, ?_, ?_⟩
  · rw [hstart]
    exact unread_chunk q
  · rw [htext, hlater, List.flatMap_cons, List.nil_append]

/-- The next byte is in a string: in this one, or in one of the next, which the client gets to. -/
lemma moves_to_byte (hp : Upcoming p (c :: w)) (hdepth : 0 < p.locals.depth) :
    ∃ q u, Relation.ReflTransGen
        (fun a b => a.locals.toRegs = p.locals.toRegs ∧ StepsTo a b) p q ∧
      Upcoming q (c :: w) ∧ Unread q.env q.locals.t (c :: u) ∧
      q.locals.toRegs = p.locals.toRegs ∧
      (AllGranted p → AllGranted q) := by
  obtain ⟨env, l, later⟩ := p
  induction later generalizing env l with
  | nil =>
    have hhere := hp
    obtain ⟨u, hu, htext⟩ := hp
    rw [List.flatMap_nil, List.append_nil] at htext
    subst htext
    exact ⟨_, w, .refl, hhere, hu, rfl, id⟩
  | cons q later ih =>
    have hhere := hp
    obtain ⟨u, hu, htext⟩ := hp
    cases u with
    | cons d u =>
      obtain ⟨rfl, -⟩ := List.cons.inj htext
      exact ⟨_, u, .refl, hhere, hu, rfl, id⟩
    | nil =>
      obtain ⟨R, hrun, hmore, hall, hregs⟩ := chunk_end hu hdepth
      have hnext : Upcoming ⟨q.env, R.cc.enter 0, later⟩ (c :: w) := upcoming_enter hu hall rfl hhere
      have hopen : 0 < (R.cc.enter 0).depth := by
        change 0 < R.cc.toRegs.depth
        rwa [hregs]
      obtain ⟨q', u, hsteps, hup, hu', hregs', hgranted⟩ := ih q.env _ hnext hopen
      have hkept : Relation.ReflTransGen (fun a b => a.locals.toRegs = l.toRegs ∧ StepsTo a b)
          ⟨q.env, R.cc.enter 0, later⟩ q' :=
        Relation.ReflTransGen.mono (fun a b hab => ⟨hab.1.trans hregs, hab.2⟩) _ _ hsteps
      refine ⟨q', u, .head ⟨rfl, .call hrun hmore hall rfl⟩ hkept, hup, hu', hregs'.trans hregs, ?_⟩
      rintro ⟨-, hlater⟩
      obtain ⟨hq, hrest⟩ := List.forall_mem_cons.mp hlater
      exact hgranted ⟨hq, hrest⟩

end Places

/-- In the middle of the text `text` of an atom. -/
structure Buffered (text : List Byte) (T : List Sexp) (rest : List (List Sexp)) (l : Regs) : Prop
    extends InList T rest l where
  cursor : l.vcur = l.valUsed
  text : l.val.take l.valUsed = text

/-- In the middle of `#b#`, whose bytes are overwritten with the size behind it. -/
structure InPrefix (T : List Sexp) (rest : List (List Sexp)) (l : Regs) : Prop
    extends InList T rest l where
  cursor : l.vcur ≤ l.valUsed

/-- The header with the size `s`, of which `todo` is still to come. -/
inductive HeaderAt (s : List Byte) (T : List Sexp) (rest : List (List Sexp)) :
    List Byte → Regs → Prop where
  | start {l : Regs} (hl : TokenStart T rest l) : HeaderAt s T rest (hash :: letterB :: hash :: s) l
  | hash {l : Regs} (hl : InPrefix T rest l) (h12 : l.state = .s12) :
      HeaderAt s T rest (letterB :: hash :: s) l
  | letter {l : Regs} (hl : InPrefix T rest l) (h13 : l.state = .s13) :
      HeaderAt s T rest (hash :: s) l
  | size {l : Regs} (u todo : List Byte) (hs : s = u ++ todo) (hl : Buffered u T rest l)
      (h14 : l.state = .s14) : HeaderAt s T rest todo l

section Header

variable {env : Env} {l : Locals} {c : Byte} {s u todo : List Byte} {T : List Sexp}
  {rest : List (List Sexp)}

lemma room_of_inList {l : Regs} (h : InList T rest l) : Room l := ⟨h.cells, h.free⟩

lemma HeaderAt.inList {l : Regs} (h : HeaderAt s T rest todo l) : InList T rest l := by
  cases h with
  | start hl => exact hl.toInList
  | hash hl _ => exact hl.toInList
  | letter hl _ => exact hl.toInList
  | size _ _ _ hl _ => exact hl.toInList

lemma HeaderAt.state_ne {l : Regs} (h : HeaderAt s T rest todo l) : l.state ≠ .s15 := by
  cases h with
  | start hl =>
    rw [hl.state]
    decide
  | hash _ h12 =>
    rw [h12]
    decide
  | letter _ h13 =>
    rw [h13]
    decide
  | size _ _ _ _ h14 =>
    rw [h14]
    decide

/-- A byte was stored. -/
lemma buffered_of_inList {a : Nat} {v : List Byte} (h : InList T rest l.toRegs)
    (happ : Appended c l v a) {m : Regs} (hval : m.val = v) (halloc : m.valAllocated = a)
    (hused : m.valUsed = l.valUsed + 1) (hcur : m.vcur = l.valUsed + 1) (hmode : m.mode = l.mode)
    (hstack : m.stack = l.stack) (hdepth : m.depth = l.depth) :
    Buffered (l.val.take l.valUsed ++ [c]) T rest m := by
  refine ⟨⟨hmode.trans h.mode, ?_, ?_, ?_, ?_⟩, hcur.trans hused.symm, ?_⟩
  · rw [hval, halloc]
    exact happ.cells
  · rw [hused, halloc]
    exact happ.free
  · rw [hstack]
    exact h.levels
  · rw [hdepth]
    exact h.depth
  · rw [hval, hused]
    exact happ.text

/-- A byte of `#b#` is stored, wherever the cursor is in the used part of the buffer. -/
lemma prefix_stored {e : Bool} (h : InPrefix T rest l.toRegs) (c : Byte) (keep : Bool) :
    (∃ v a p k, (writeCur c l >>= fun m => grow env keep { m with esc := e, valUsed := m.valUsed + 1 }) =
        .ok { l with val := v, valAllocated := a, valUsed := l.valUsed + 1, vcur := p, esc := e
                     allocs := k } ∧
        v.length = a ∧ l.valUsed + 1 < a ∧ p ≤ l.valUsed + 1) ∨
      ∃ R, (writeCur c l >>= fun m => grow env keep { m with esc := e, valUsed := m.valUsed + 1 }) =
        .error (.ret R) ∧ R.cc.error = .memory ∧ ¬ env.Succeeds := by
  have hcells := h.cells
  have hfree := h.free
  have hcursor := h.cursor
  rw [writeCur_ok (by omega), ok_bind]
  exact @grow_cases env
    { l with val := l.val.set l.vcur c, esc := e, valUsed := l.valUsed + 1 } keep
    ((List.length_set).trans hcells) hfree (Nat.lt_succ_of_le hcursor)

/-- One byte of the header. Nothing else can go wrong than that the buffer does not grow. -/
lemma header_step (h : HeaderAt s T rest (c :: todo) l.toRegs) (hu : Unread env l.t (c :: u))
    (hplain : ∀ d ∈ s, d ≠ hash ∧ d ≠ nul) :
    (∃ l', cparseHead env l = .ok l' ∧ l'.t = l.t + 1 ∧ HeaderAt s T rest todo l'.toRegs) ∨
      ∃ R, cparseHead env l = .error (.ret R) ∧ R.cc.error = .memory ∧ ¬ env.Succeeds := by
  have hroom := room_of_inList h.inList
  have h15 := h.state_ne
  have hrest := rest_of_unread hu
  cases h with
  | start hl =>
    have hhead : cparseHead env l = state1 env hash l := by
      rw [head_of_rest hrest (by decide) h15, switch, hl.state]
    have hstate : (if hash = hash ∧ l.mode = .inlineBinary then State.s12 else .s4) = .s12 :=
      if_pos ⟨rfl, hl.mode⟩
    have hround : cparseHead env l = (writeCur hash { l with vcur := 0 } >>= fun l =>
        grow env false { l with esc := hash == backslash, valUsed := l.valUsed + 1 }) >>= fun m =>
        .ok { m with state := if hash = hash ∧ m.mode = .inlineBinary then .s12 else .s4
                     t := m.t + 1 } := by
      rw [hhead, bind_assoc]
      rfl
    rw [hround]
    have hin : InPrefix T rest { l with vcur := 0 : Locals }.toRegs :=
      ⟨⟨hl.mode, hl.cells, hl.free, hl.levels, hl.depth⟩, Nat.zero_le _⟩
    rcases @prefix_stored env { l with vcur := 0 } T rest (hash == backslash) hin hash false with
      ⟨v, a, p, k, hrun, hlen, hfree, hcur⟩ | ⟨R, hrun, hmemory, hdenied⟩
    · rw [hrun, ok_bind]
      exact .inl ⟨_, rfl, rfl, .hash ⟨⟨hl.mode, hlen, hfree, hl.levels, hl.depth⟩, hcur⟩ hstate⟩
    · rw [hrun]
      exact .inr ⟨R, rfl, hmemory, hdenied⟩
  | hash hl h12 =>
    have hhead : cparseHead env l = state12 env letterB l := by
      rw [head_of_rest hrest (by decide) h15, switch, h12]
    rw [hhead, state12, if_pos rfl, storeEsc]
    rcases prefix_stored hl letterB true with
      ⟨v, a, p, k, hrun, hlen, hfree, hcur⟩ | ⟨R, hrun, hmemory, hdenied⟩
    · rw [hrun]
      exact .inl ⟨_, rfl, rfl, .letter ⟨⟨hl.mode, hlen, hfree, hl.levels, hl.depth⟩, hcur⟩ rfl⟩
    · rw [hrun]
      exact .inr ⟨R, rfl, hmemory, hdenied⟩
  | letter hl h13 =>
    have hhead : cparseHead env l = state13 env hash l := by
      rw [head_of_rest hrest (by decide) h15, switch, h13]
    rw [hhead, state13, if_pos rfl, storeEsc]
    rcases prefix_stored hl hash true with
      ⟨v, a, p, k, hrun, hlen, hfree, hcur⟩ | ⟨R, hrun, hmemory, hdenied⟩
    · rw [hrun]
      -- the buffer is used anew for the size
      have hpos : 0 < a := Nat.lt_of_le_of_lt (Nat.zero_le _) hfree
      refine .inl ⟨_, rfl, rfl, .size [] s rfl ?_ rfl⟩
      exact ⟨⟨hl.mode, hlen, hpos, hl.levels, hl.depth⟩, rfl, List.take_zero⟩
    · rw [hrun]
      exact .inr ⟨R, rfl, hmemory, hdenied⟩
  | size u todo hs hl h14 =>
    obtain ⟨hc, hnul⟩ := hplain c (by rw [hs]; exact List.mem_append_right _ List.mem_cons_self)
    have hhead : cparseHead env l = state14 env c l := by
      rw [head_of_rest hrest hnul h15, switch, h14]
    rw [hhead, state14, if_neg hc]
    rcases storeEsc_cases hroom hl.cursor c with
      ⟨v, a, k, hrun, happ⟩ | ⟨R, hrun, hmemory, hdenied⟩
    · rw [hrun]
      refine .inl ⟨_, rfl, rfl, .size (u ++ [c]) todo (by rw [hs]; simp) ?_ h14⟩
      rw [← hl.text]
      exact buffered_of_inList hl.toInList happ rfl rfl rfl rfl rfl rfl rfl
    · rw [hrun]
      exact .inr ⟨R, rfl, hmemory, hdenied⟩

end Header

section Values

variable {s u : List Byte} {v : Int}

lemma digits_numeral (hu : ∀ c ∈ u, 48 ≤ c ∧ c ≤ 57) (acc : Nat) :
    digits acc u = u.foldl (fun n c => 10 * n + (c.toNat - 48)) acc := by
  induction u generalizing acc with
  | nil => rfl
  | cons c u ih =>
    obtain ⟨hc, hrest⟩ := List.forall_mem_cons.mp hu
    rw [digits, if_pos hc, ih hrest, List.foldl_cons]

lemma atoi_size (h : SizeText s v) : atoi s = v := by
  cases h with
  | plain u hu hint =>
    obtain ⟨c, t, rfl⟩ := List.exists_cons_of_ne_nil hu.1
    rw [atoi_digits (hu.2 c List.mem_cons_self).1, digits_numeral hu.2]
    rfl
  | minus u hu hint =>
    have hspace : isCSpace 45 = false := by decide
    rw [atoi, List.dropWhile_cons_of_neg (by simp [hspace])]
    change -(digits 0 u : Int) = _
    rw [digits_numeral hu.2]
    rfl

/-- No byte of a size ends it, or the input. -/
lemma size_plain (h : SizeText s v) : ∀ d ∈ s, d ≠ hash ∧ d ≠ nul := by
  have hdigit : ∀ d : Byte, 48 ≤ d ∧ d ≤ 57 → d ≠ hash ∧ d ≠ nul := by
    rintro d ⟨hlow, -⟩
    constructor
    · rintro rfl
      exact absurd hlow (by decide)
    · rintro rfl
      exact absurd hlow (by decide)
  cases h with
  | plain u hu hint => exact fun d hd => hdigit d (hu.2 d hd)
  | minus u hu hint =>
    rintro d hd
    rcases List.mem_cons.mp hd with rfl | hd
    · decide
    · exact hdigit d (hu.2 d hd)

lemma nul_size (h : SizeText s v) : nul ∉ s := fun hn => (size_plain h nul hn).2 rfl

lemma size_range (h : SizeText s v) : -2 ^ 31 ≤ v ∧ v < 2 ^ 31 := by
  cases h with
  | plain u hu hint => omega
  | minus u hu hint => omega

end Values

section Arrival

variable {env : Env} {l l' : Locals} {p q : Place} {c : Byte} {s u w todo : List Byte} {v : Int}
  {T : List Sexp} {rest : List (List Sexp)}

/-- The next byte was read. -/
lemma upcoming_tail (hp : Upcoming p (c :: w)) (hu : Unread p.env p.locals.t (c :: u))
    (ht : l'.t = p.locals.t + 1) : Unread p.env l'.t u ∧ Upcoming { p with locals := l' } w := by
  have hnext : Unread p.env l'.t u := by
    rw [ht]
    exact unread_of_rest (rest_of_unread hu).tail
  obtain ⟨u', hu', htext⟩ := hp
  obtain rfl := unread_unique hu' hu
  exact ⟨hnext, u, hnext, (List.cons.inj htext).2⟩

/-- Behind the header the buffer holds the size. -/
lemma HeaderAt.buffered {l : Regs} (h : HeaderAt s T rest [] l) :
    Buffered s T rest l ∧ l.state = .s14 := by
  obtain ⟨todo, htodo⟩ : ∃ todo : List Byte, todo = [] := ⟨_, rfl⟩
  rw [← htodo] at h
  cases h with
  | start _ => cases htodo
  | hash _ _ => cases htodo
  | letter _ _ => cases htodo
  | size u todo hs hl h14 =>
    rw [htodo, List.append_nil] at hs
    rw [hs]
    exact ⟨hl, h14⟩

/-- When all requests are granted, the parser gets to the `#` behind the size. -/
lemma header_arrives (hplain : ∀ d ∈ s, d ≠ hash ∧ d ≠ nul)
    (h : HeaderAt s T rest todo p.locals.toRegs) (hp : Upcoming p (todo ++ hash :: w))
    (hg : AllGranted p) :
    ∃ q u, Relation.ReflTransGen OutsideStep p q ∧ Buffered s T rest q.locals.toRegs ∧
      q.locals.state = .s14 ∧ Upcoming q (hash :: w) ∧ Unread q.env q.locals.t (hash :: u) := by
  induction todo generalizing p with
  | nil =>
    obtain ⟨hl, h14⟩ := h.buffered
    obtain ⟨q, u, hsteps, hq, hu, hregs, -⟩ := moves_to_byte hp hl.depth
    have houtside : Relation.ReflTransGen OutsideStep p q :=
      Relation.ReflTransGen.mono (fun a b hab => ⟨by rw [hab.1]; exact h.state_ne, hab.2⟩) _ _ hsteps
    refine ⟨q, u, houtside, ?_, ?_, hq, hu⟩
    · rwa [hregs]
    · rwa [hregs]
  | cons c todo ih =>
    obtain ⟨q, u, hsteps, hq, hu, hregs, hgranted⟩ := moves_to_byte hp h.inList.depth
    have houtside : Relation.ReflTransGen OutsideStep p q :=
      Relation.ReflTransGen.mono (fun a b hab => ⟨by rw [hab.1]; exact h.state_ne, hab.2⟩) _ _ hsteps
    rw [← hregs] at h
    rcases header_step h hu hplain with ⟨l', hround, ht, hnext⟩ | ⟨R, -, -, hdenied⟩
    · obtain ⟨-, hahead⟩ := upcoming_tail hq hu ht
      obtain ⟨q', u', hsteps', hrest⟩ :=
        @ih { q with locals := l' } hnext hahead ⟨(hgranted hg).1, (hgranted hg).2⟩
      exact ⟨q', u', houtside.trans (.head ⟨h.state_ne, .round hround⟩ hsteps'), hrest⟩
    · exact absurd (hgranted hg).1 hdenied

/-- The size was read, and a block for the blob is not there yet. -/
def sized (v : Int) (l : Locals) : Locals :=
  { l with t := l.t + 1, state := .s15, val := l.val.set l.vcur nul, binexpected := toSize v
           binread := 0, bindata := none }

/-- The `#` behind the size. -/
lemma size_head (hs : SizeText s v) (hl : Buffered s T rest l.toRegs) (h14 : l.state = .s14)
    (hu : Unread env l.t (hash :: u)) :
    cparseHead env l =
      if 0 < toSize v then do
        let m ← need env (sized v l)
        .ok { m with bindata := some (env.fresh m.binexpected) }
      else .ok (sized v l) := by
  have hroom : Room l.toRegs := room_of_inList hl.toInList
  have hlt : l.vcur < l.val.length := by
    rw [hl.cursor, hroom.cells]
    exact hroom.free
  have hnul : nul ∉ l.val.take l.valUsed := by
    rw [hl.text]
    exact nul_size hs
  have hvalue : atoi (cstr (l.val.set l.vcur nul)) = v := by
    rw [cstr_terminated hroom hl.cursor hnul, hl.text, atoi_size hs]
  have hwrite : writeCur nul { l with t := l.t + 1, state := .s15 } =
      .ok { l with t := l.t + 1, state := .s15, val := l.val.set l.vcur nul } := writeCur_ok hlt
  have hstate : l.state ≠ .s15 := by
    rw [h14]
    decide
  rw [head_of_rest (rest_of_unread hu) (by decide) hstate, switch, h14]
  dsimp only
  rw [state14, if_pos rfl, endSize, hwrite, ok_bind]
  dsimp only
  rw [hvalue]
  rfl

/-- The parser is in the header, or it has got to the blob. -/
def Arriving (s : List Byte) (T : List Sexp) (rest : List (List Sexp)) (w : List Byte) (p : Place) :
    Prop :=
  p.locals.state = .s15 ∨
    ∃ todo, HeaderAt s T rest todo p.locals.toRegs ∧ Upcoming p (todo ++ hash :: w)

/-- With a byte ahead that does not make the parser ask for more, a step is a round. -/
lemma stepsTo_round (hstep : StepsTo p q)
    (hret : ∀ R, cparseHead p.env p.locals = .error (.ret R) → R.cc.error ≠ .incomplete) :
    ∃ l', cparseHead p.env p.locals = .ok l' ∧ q = { p with locals := l' } := by
  cases hstep with
  | round h => exact ⟨_, h, rfl⟩
  | call h hmore _ _ => exact absurd hmore (hret _ h)

/-- At the end of a chunk a step is the call with the next one. -/
lemma stepsTo_call (hstep : StepsTo p q) (hu : Unread p.env p.locals.t [])
    (hdepth : 0 < p.locals.depth) :
    q.locals.toRegs = p.locals.toRegs ∧ ∀ text, Upcoming p text → Upcoming q text := by
  obtain ⟨R, hrun, -, hall, hregs⟩ := chunk_end hu hdepth
  cases hstep with
  | round h =>
    rw [hrun] at h
    cases h
  | call h _ _ hlater =>
    rw [hrun] at h
    cases h
    exact ⟨hregs, fun text htext => upcoming_enter hu hall hlater htext⟩

/-- The round on the `#` behind the size. -/
lemma size_round (hs : SizeText s v) (hl : Buffered s T rest l.toRegs) (h14 : l.state = .s14)
    (hu : Unread env l.t (hash :: u)) :
    (∀ l', cparseHead env l = .ok l' → l'.state = .s15) ∧
      ∀ R, cparseHead env l = .error (.ret R) → R.cc.error ≠ .incomplete := by
  rw [size_head hs hl h14 hu]
  by_cases hpos : 0 < toSize v
  · rw [if_pos hpos, need]
    by_cases halloc : env.alloc (sized v l).allocs = true
    · rw [if_pos halloc]
      constructor
      · rintro l' h
        cases h
        rfl
      · rintro R h
        cases h
    · rw [if_neg halloc]
      constructor
      · rintro l' h
        cases h
      · rintro R h
        cases h
        exact (by decide : ErrCode.memory ≠ .incomplete)
  · rw [if_neg hpos]
    constructor
    · rintro l' h
      cases h
      rfl
    · rintro R h
      cases h

lemma arriving_step (hs : SizeText s v) (h : Arriving s T rest w p) (hstep : OutsideStep p q) :
    Arriving s T rest w q := by
  obtain ⟨hstate, hstep⟩ := hstep
  obtain ⟨todo, hheader, hp⟩ := h.resolve_left hstate
  have hahead := hp
  obtain ⟨u, hu, htext⟩ := hp
  cases u with
  | nil =>
    obtain ⟨hregs, hup⟩ := stepsTo_call hstep hu hheader.inList.depth
    refine .inr ⟨todo, ?_, hup _ hahead⟩
    rwa [hregs]
  | cons d u =>
    cases todo with
    | nil =>
      obtain ⟨hl, h14⟩ := hheader.buffered
      obtain ⟨rfl, -⟩ := List.cons.inj htext
      obtain ⟨hblob, hret⟩ := size_round hs hl h14 hu
      obtain ⟨l', hround, rfl⟩ := stepsTo_round hstep hret
      exact .inl (hblob l' hround)
    | cons c todo =>
      obtain ⟨rfl, -⟩ := List.cons.inj htext
      have hstored := header_step hheader hu (size_plain hs)
      have hret : ∀ R, cparseHead p.env p.locals = .error (.ret R) → R.cc.error ≠ .incomplete := by
        intro R hR
        rcases hstored with ⟨l', hround, -⟩ | ⟨R', hdenied, hmemory, -⟩
        · rw [hround] at hR
          cases hR
        · rw [hdenied] at hR
          cases hR
          rw [hmemory]
          decide
      obtain ⟨l', hround, rfl⟩ := stepsTo_round hstep hret
      rcases hstored with ⟨m, hm, ht, hnext⟩ | ⟨R, hdenied, -⟩
      · rw [hround] at hm
        cases hm
        exact .inr ⟨todo, hnext, (upcoming_tail hahead hu ht).2⟩
      · rw [hround] at hdenied
        cases hdenied

/-- In every run to the `#` behind the size, the buffer holds the size there. -/
lemma buffered_of_sizeRead {p₀ : Place} (hs : SizeText s v) (hstart : TokenStart T rest p₀.locals.toRegs)
    (hahead : Upcoming p₀ ([hash, letterB, hash] ++ s ++ hash :: w)) (h : SizeRead p₀ w p) :
    Buffered s T rest p.locals.toRegs ∧ ∃ u, Unread p.env p.locals.t (hash :: u) := by
  have hrun : Arriving s T rest w p := by
    obtain ⟨hrun, -, -, -⟩ := h
    induction hrun with
    | refl => exact .inr ⟨_, .start hstart, by simpa using hahead⟩
    | tail _ hstep ih => exact arriving_step hs ih hstep
  have hstate : p.locals.state ≠ .s15 := by
    rw [h.state]
    decide
  obtain ⟨todo, hheader, hp⟩ := hrun.resolve_left hstate
  have hdone : todo = [] := by
    have htext := upcoming_unique hp h.ahead
    simpa using congrArg List.length htext
  subst hdone
  obtain ⟨u, hu, htext⟩ := h.ahead
  refine ⟨hheader.buffered.1, ?_⟩
  cases u with
  | nil =>
    have hend := (rest_of_unread hu).get_end
    rw [h.here] at hend
    cases hend
  | cons d u =>
    obtain ⟨rfl, -⟩ := List.cons.inj htext
    exact ⟨u, hu⟩

end Arrival

end Sfsexp.Proofs

