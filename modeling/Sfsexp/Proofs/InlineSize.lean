import Sfsexp.Proofs.ErrorCodes
import Sfsexp.Proofs.InlineHeader

/-!
# Sizes of inline binary atoms

A size that is not negative is followed by that many bytes of the blob, over any chunks. A negative
one is taken for a huge one and never rejected, and when there is no memory for the blob the parser
stays inside it without a block.
-/

namespace Sfsexp.Proofs

open Sfsexp Spec

/-- In the middle of the blob `data`, `k` of whose bytes were read, inside the list that holds `T`. -/
structure Inside (data : List Byte) (k : Nat) (T : List Sexp) (rest : List (List Sexp)) (l : Regs) :
    Prop extends Taken data k l where
  state : l.state = .s15
  levels : l.stack.levels = T :: rest
  depth : 0 < l.depth

section Arrival

variable {env : Env} {l : Locals} {p q : Place} {c : Byte} {k : Nat} {s data u w : List Byte}
  {T : List Sexp} {rest : List (List Sexp)}

/-- The blob was added to the list. -/
structure Added (data : List Byte) (T : List Sexp) (rest : List (List Sexp)) (l : Regs) : Prop where
  state : l.state = .s1
  block : ∃ b, b.getD [] = data ∧ l.stack.levels = (T ++ [.blob b data.length]) :: rest

/-- The last byte of the blob was read. -/
lemma inside_end (h : Inside data data.length T rest l.toRegs) (hg : env.Succeeds) :
    ∃ l', endBlob env l = .ok l' ∧ l'.t = l.t ∧ Added data T rest l'.toRegs := by
  have hlevels : (madeBlob l).stack.levels = T :: rest := h.levels
  obtain ⟨s, hlink, hs⟩ : ∃ s, link (madeBlob l) = some { madeBlob l with stack := s } ∧
      s.levels = (T ++ [.blob l.bindata data.length]) :: rest := by
    rw [link, hlevels, ← h.read]
    exact ⟨_, rfl, rfl⟩
  refine ⟨{ madeBlob l with stack := s }, ?_, rfl, rfl, l.bindata, h.block, hs⟩
  rw [endBlob_eq hg, hlink, Option.getD_some]

/-- One byte of the blob is read; with the last one the blob is added. -/
lemma inside_round (h : Inside data k T rest l.toRegs) (hg : env.Succeeds) (hc : data[k]? = some c)
    (hu : Unread env l.t (c :: u)) :
    ∃ l', cparseHead env l = .ok l' ∧ l'.t = l.t + 1 ∧
      (k + 1 < data.length ∧ Inside data (k + 1) T rest l'.toRegs ∨
        k + 1 = data.length ∧ Added data T rest l'.toRegs) := by
  obtain ⟨hk, -⟩ := List.getElem?_eq_some_iff.mp hc
  have hrest := rest_of_unread hu
  obtain ⟨b, hread, htaken⟩ := h.toTaken.byte hc hrest.get
  have hnext : Inside data (k + 1) T rest
      { l with bindata := b, binread := k + 1, t := l.t + 1 : Locals }.toRegs :=
    ⟨htaken, h.state, h.levels, h.depth⟩
  have hhead : cparseHead env l =
      if k + 1 = data.length then endBlob env { l with bindata := b, binread := k + 1, t := l.t + 1 }
      else .ok { l with bindata := b, binread := k + 1, t := l.t + 1 } := by
    rw [head_of_blob hrest h.state, state15, hread, ok_bind, ← h.expected]
  by_cases hlast : k + 1 = data.length
  · rw [if_pos hlast] at hhead
    rw [hlast] at hnext hhead
    obtain ⟨l', hend, ht, hadded⟩ := inside_end hnext hg
    exact ⟨l', hhead.trans hend, ht, .inr ⟨hlast, hadded⟩⟩
  · rw [if_neg hlast] at hhead
    exact ⟨_, hhead, rfl, .inl ⟨by omega, hnext⟩⟩

/-- A blob of no bytes is added at the byte behind it. -/
lemma inside_nil (h : Inside data data.length T rest l.toRegs) (hg : env.Succeeds)
    (hu : Unread env l.t (c :: u)) :
    ∃ l', cparseHead env l = .ok l' ∧ l'.t = l.t ∧ Added data T rest l'.toRegs := by
  obtain ⟨l', hend, ht, hadded⟩ := inside_end h hg
  refine ⟨l', ?_, ht, hadded⟩
  rw [head_of_blob (rest_of_unread hu) h.state, state15, readBlob,
    if_neg (by rw [h.read, h.expected]; exact Nat.lt_irrefl _), ok_bind,
    if_pos (h.read.trans h.expected.symm), hend]

/-- The bytes of the blob come in this string and in the chunks to come. -/
lemma blob_arrives (h : Inside data k T rest p.locals.toRegs) (hk : k < data.length)
    (hp : Upcoming p (data.drop k ++ w)) (hg : AllGranted p) :
    ∃ q, Relation.ReflTransGen StepsTo p q ∧ Upcoming q w ∧ Added data T rest q.locals.toRegs := by
  obtain ⟨n, hn⟩ : ∃ n, n = data.length - k := ⟨_, rfl⟩
  induction n generalizing p k with
  | zero => omega
  | succ n ih =>
    have hbyte : data[k]? = some (data.get ⟨k, hk⟩) := List.getElem?_eq_getElem hk
    rw [List.drop_eq_getElem_cons hk, List.cons_append] at hp
    obtain ⟨q, u, hsteps, hq, hu, hregs, hgranted⟩ := moves_to_byte hp h.depth
    have hmoves : Relation.ReflTransGen StepsTo p q :=
      Relation.ReflTransGen.mono (fun a b hab => hab.2) _ _ hsteps
    rw [← hregs] at h
    obtain ⟨l', hround, ht, hcases⟩ := inside_round h (hgranted hg).1 hbyte hu
    have hstep : StepsTo q { q with locals := l' } := .round hround
    have hahead := (upcoming_tail hq hu ht).2
    rcases hcases with ⟨hmore, hnext⟩ | ⟨hlast, hadded⟩
    · obtain ⟨q', hsteps', hrest⟩ := @ih { q with locals := l' } (k + 1) hnext hmore hahead
        ⟨(hgranted hg).1, (hgranted hg).2⟩ (by omega)
      exact ⟨q', hmoves.trans (.head hstep hsteps'), hrest⟩
    · rw [hlast, List.drop_length, List.nil_append] at hahead
      exact ⟨_, hmoves.tail hstep, hahead, hadded⟩

/-- From the first byte of the blob on. One without bytes waits for the byte behind it. -/
lemma blob_run_chunks (h : Inside data 0 T rest p.locals.toRegs) (hp : Upcoming p (data ++ w))
    (hw : data = [] → w ≠ []) (hg : AllGranted p) :
    ∃ q, Relation.ReflTransGen StepsTo p q ∧ Upcoming q w ∧ Added data T rest q.locals.toRegs := by
  by_cases hpos : 0 < data.length
  · exact blob_arrives h hpos hp hg
  · obtain rfl := List.eq_nil_of_length_eq_zero (Nat.eq_zero_of_not_pos hpos)
    obtain ⟨c, w, rfl⟩ := List.exists_cons_of_ne_nil (hw rfl)
    obtain ⟨q, u, hsteps, hq, hu, hregs, hgranted⟩ := moves_to_byte hp h.depth
    have hmoves : Relation.ReflTransGen StepsTo p q :=
      Relation.ReflTransGen.mono (fun a b hab => hab.2) _ _ hsteps
    rw [← hregs] at h
    obtain ⟨l', hround, ht, hadded⟩ := inside_nil h (hgranted hg).1 hu
    refine ⟨{ q with locals := l' }, hmoves.tail (.round hround), ?_, hadded⟩
    obtain ⟨u', hu', htext⟩ := hq
    refine ⟨u', ?_, htext⟩
    change Unread q.env l'.t u'
    rwa [ht]

end Arrival

/-- A byte that is missing has a place in the block. -/
def Supplied (l : Regs) : Prop :=
  l.state = .s15 → l.binread < l.binexpected →
    ∃ data, l.bindata = some data ∧ data.length = l.binexpected

/-- What a piece of a round leaves has a block for what is missing. -/
def LeavesSupplied : Exec Locals → Prop :=
  Post (fun l => Supplied l.toRegs) (fun R => Supplied R.cc.toRegs) fun _ => True

section Blocks

variable {env : Env} {l : Locals} {p q : Env × Locals} {data : List Byte} {k : Nat}

lemma Taken.supplied {l : Regs} (h : Taken data k l) : Supplied l := by
  rintro - hmissing
  rw [h.expected] at hmissing ⊢
  have hcells := h.cells
  cases hdata : l.bindata with
  | none =>
    rw [h.present hdata] at hmissing
    exact absurd hmissing (Nat.not_lt_zero _)
  | some cells =>
    rw [hdata] at hcells
    exact ⟨cells, rfl, hcells⟩

lemma supplied_of_state {l : Regs} (h : l.state = .s1) : Supplied l := by
  intro h15
  rw [h] at h15
  cases h15

lemma supplied_readBlob (h : Supplied l.toRegs) (h15 : l.state = .s15) :
    LeavesSupplied (readBlob env l) := by
  rw [readBlob]
  by_cases hmissing : l.binread < l.binexpected
  · obtain ⟨data, hdata, hlen⟩ := h h15 hmissing
    rw [if_pos hmissing, Env.read]
    cases env.buf[l.t]? with
    | none => exact trivial
    | some c =>
      rw [ok_bind, hdata]
      dsimp only
      rw [if_pos (by omega)]
      intro _ _
      exact ⟨_, rfl, by rw [List.length_set, hlen]⟩
  · rw [if_neg hmissing]
    exact h

lemma supplied_endBlob (h : Supplied l.toRegs) : LeavesSupplied (endBlob env l) := by
  rw [endBlob, need]
  split_ifs
  · rw [ok_bind]
    apply supplied_of_state
    rw [link]
    split <;> simp
  · exact h

lemma supplied_state15 (h : Supplied l.toRegs) (h15 : l.state = .s15) :
    LeavesSupplied (state15 env l) := by
  rw [state15]
  refine Post.bind (supplied_readBlob h h15) ?_
  intro l' h'
  split_ifs
  · exact supplied_endBlob h'
  · exact h'

lemma supplied_finish (h : Supplied l.toRegs) : LeavesSupplied (.error (finish env l)) := by
  rw [finish]
  split_ifs
  · rw [returnTree]
    split
    · exact trivial
    · exact supplied_of_state rfl
  · split
    · exact trivial
    · exact h

lemma supplied_cparseHead (h : Supplied l.toRegs) (h15 : l.state = .s15) :
    LeavesSupplied (cparseHead env l) := by
  rw [cparseHead, if_pos h15]
  split_ifs
  · exact supplied_finish h
  · exact supplied_state15 h h15

/-- A call goes on with the block that was returned. -/
lemma supplied_continues (h : LeavesSupplied (cparseHead p.1 p.2)) (hstep : Continues p q) :
    Supplied q.2.toRegs := by
  cases hstep with
  | round hround =>
    rw [hround] at h
    exact h
  | call k hret =>
    rw [hret] at h
    exact h

/-- No byte of the blob is written outside of its block, once there is one. -/
lemma writesInside_of_supplied (h : LeavesSupplied (cparseHead p.1 p.2)) (hq : BlobHead p q) :
    WritesInside q := by
  have hsupplied : Supplied q.2.toRegs := by
    induction hq with
    | first hstep => exact supplied_continues h hstep
    | next _ hinside hstep ih => exact supplied_continues (supplied_cparseHead ih hinside) hstep
  exact fun h15 _ hmissing => hsupplied h15 hmissing

end Blocks

section Sizes

variable {env : Env} {l : Locals} {p p₀ : Place} {s u w : List Byte} {v : Int} {T : List Sexp}
  {rest : List (List Sexp)}

/-- The `#` behind the size, when there is memory for the blob. -/
lemma size_granted (hs : SizeText s v) (hl : Buffered s T rest l.toRegs) (h14 : l.state = .s14)
    (hu : Unread env l.t (hash :: u)) (halloc : 0 < toSize v → env.alloc l.allocs = true) :
    ∃ l', cparseHead env l = .ok l' ∧ l'.t = l.t + 1 ∧
      ∀ data : List Byte, data.length = toSize v → Inside data 0 T rest l'.toRegs := by
  have hhead := size_head hs hl h14 hu
  by_cases hpos : 0 < toSize v
  · have hneed : need env (sized v l) = .ok { sized v l with allocs := l.allocs + 1 } :=
      if_pos (halloc hpos)
    rw [if_pos hpos, hneed, ok_bind] at hhead
    refine ⟨_, hhead, rfl, fun data hlen => ⟨⟨hlen.symm, rfl, ?_, ?_, ?_⟩, rfl, hl.levels, hl.depth⟩⟩
    · rw [hlen]
      exact env.length_fresh _
    · intro hnone
      cases hnone
    · rw [List.take_zero, List.take_zero]
  · rw [if_neg hpos] at hhead
    refine ⟨_, hhead, rfl, fun data hlen => ⟨⟨hlen.symm, rfl, ?_, ?_, ?_⟩, rfl, hl.levels, hl.depth⟩⟩
    · rw [hlen]
      exact (Nat.eq_zero_of_not_pos hpos).symm
    · exact fun _ => List.eq_nil_of_length_eq_zero (hlen.trans (Nat.eq_zero_of_not_pos hpos))
    · rw [List.take_zero, List.take_zero]

/-- The `#` behind the size, when there is no memory for the blob: the next call is inside a blob
without a block. -/
lemma size_denied (hs : SizeText s v) (hl : Buffered s T rest l.toRegs) (h14 : l.state = .s14)
    (hu : Unread env l.t (hash :: u)) (hpos : 0 < toSize v) (halloc : ¬ env.alloc l.allocs = true) :
    ∃ q, BlobHead (env, l) q ∧ ¬ WritesInside q := by
  have hhead := size_head hs hl h14 hu
  have hneed : need env (sized v l) =
      .error ({ sized v l with allocs := l.allocs + 1 }.save .memory []) := if_neg halloc
  rw [if_pos hpos, hneed] at hhead
  -- the next call passes a longer string
  refine ⟨_, .first (.call ⟨env.toSetup, env.buf, l.t + 2, .memory⟩ hhead), ?_⟩
  intro hwrites
  have hmore : l.t + 1 ≠ l.t + 2 := by omega
  obtain ⟨data, hnone, -⟩ := hwrites rfl hmore hpos
  cases hnone

/-- A size read at a token start inside a list is decoded to exactly its bytes, or the parser rejects
it, exactly when it is not negative and there is memory for the bytes. -/
theorem inline_size (hs : SizeText s v) (hstart : TokenStart T rest p₀.locals.toRegs)
    (hahead : Upcoming p₀ ([hash, letterB, hash] ++ s ++ hash :: w)) :
    (AllGranted p₀ → ∃ p, SizeRead p₀ w p) ∧
      ∀ p, SizeRead p₀ w p →
        (Decodes p.env p.locals v T rest ↔
          0 ≤ v ∧ (0 < v → p.env.alloc p.locals.allocs = true)) := by
  obtain ⟨hlow, hhigh⟩ := size_range hs
  constructor
  · intro hg
    obtain ⟨p, u, hrun, -, h14, hp, hu⟩ :=
      header_arrives (size_plain hs) (.start hstart) (by simpa using hahead) hg
    exact ⟨p, hrun, h14, hp, (rest_of_unread hu).get⟩
  intro p hp
  obtain ⟨hl, u, hu⟩ := buffered_of_sizeRead hs hstart hahead hp
  constructor
  · intro h
    have hnonneg : 0 ≤ v := by
      by_contra hneg
      obtain ⟨q, R, -, hret, hcode⟩ := h.rejected (by omega)
      exact (coded_cparseHead R hret).2 hcode
    refine ⟨hnonneg, fun hpos => ?_⟩
    by_contra halloc
    have hsize : 0 < toSize v := by
      rw [toSize]
      omega
    obtain ⟨q, hq, hwrites⟩ := size_denied hs hl hp.state hu hsize halloc
    exact hwrites (h.inside q hq)
  · rintro ⟨hnonneg, halloc⟩
    have hsize : toSize v = v.toNat := by
      rw [toSize]
      omega
    obtain ⟨l', hround, ht, hinside⟩ :=
      size_granted hs hl hp.state hu fun hpos => halloc (by omega)
    refine ⟨?_, fun hneg => by omega, ?_⟩
    · intro data w' later hlen hbehind hup hg
      obtain ⟨-, hnext⟩ := upcoming_tail hup hu ht
      have hblob := hinside data (by omega)
      obtain ⟨q, hsteps, hq, hadded⟩ := @blob_run_chunks _ _ _ _ _ hblob hnext hbehind hg
      obtain ⟨block, hdata, hlevels⟩ := hadded.block
      exact ⟨q, block, .head (.round hround) hsteps, hq, hadded.state, hdata, hlevels⟩
    · have hsupplied : LeavesSupplied (cparseHead p.env p.locals) := by
        rw [hround]
        exact (hinside (List.replicate (toSize v) nul) List.length_replicate).supplied
      exact fun q hq => writesInside_of_supplied hsupplied hq

end Sizes

/-- Where the loop is behind the paren of a first call in inline binary mode. -/
def afterParen (g : Setup) : Locals :=
  { ({ Pcont.new g with mode := .inlineBinary } : Pcont).enter 0 with
    t := 1, depth := 1, elts := 1, sx := [.list []], allocs := 5
    stack := ⟨[[], [.list []]], 0, 2⟩ }

lemma tokenStart_afterParen (g : Setup) : TokenStart [] [[.list []]] (afterParen g).toRegs :=
  ⟨⟨rfl, Setup.length_fresh _ _, g.params.start_pos, rfl, Nat.zero_lt_one⟩, rfl⟩

lemma numeral_singleton {c : Byte} (h : 48 ≤ c ∧ c ≤ 57) : Numeral [c] :=
  ⟨List.cons_ne_nil _ _, List.forall_mem_singleton.mpr h⟩

/-- The chunk `(#b#2#ab)`. -/
def twoBytes : Chunk :=
  ⟨Setup.plain, [lparen, hash, letterB, hash, 50, hash, 97, 98, rparen]⟩

/-- Two bytes of a blob that ends its list: the size is read at the third `#`. -/
theorem inline_size_two :
    (∃ p, SizeRead ⟨twoBytes.env, afterParen Setup.plain, []⟩ [97, 98, rparen] p) ∧
      ∀ p, SizeRead ⟨twoBytes.env, afterParen Setup.plain, []⟩ [97, 98, rparen] p →
        (Decodes p.env p.locals 2 [] [[.list []]] ↔
          (0 : Int) ≤ 2 ∧ ((0 : Int) < 2 → p.env.alloc p.locals.allocs = true)) := by
  have hsize : SizeText [50] 2 := .plain [50] (numeral_singleton (by decide)) (by decide)
  have hahead : Upcoming ⟨twoBytes.env, afterParen Setup.plain, []⟩
      ([hash, letterB, hash] ++ [50] ++ hash :: [97, 98, rparen]) := ⟨_, ⟨⟨[], rfl⟩, rfl⟩, rfl⟩
  have hgranted : AllGranted ⟨twoBytes.env, afterParen Setup.plain, []⟩ :=
    ⟨fun _ => rfl, fun q hq => absurd hq List.not_mem_nil⟩
  obtain ⟨harrives, hdecodes⟩ := inline_size hsize (tokenStart_afterParen Setup.plain) hahead
  exact ⟨harrives hgranted, hdecodes⟩

/-- The chunk `(#b#-1#`. All requests are granted but the one for `2 ^ 64 - 1` bytes. -/
def negativeSize : Chunk :=
  ⟨{ Setup.plain with alloc := fun n => n < 5 }, [lparen, hash, letterB, hash, 45, 49, hash]⟩

/-- At the `#` behind that size. -/
def negativeEnd : Locals :=
  { afterParen negativeSize.setup with
    t := 6, state := .s14, valUsed := 2, vcur := 2
    val := (((((afterParen negativeSize.setup).val.set 0 hash).set 1 letterB).set 2 hash).set 0
      45).set 1 49 }

set_option maxRecDepth 4000 in
/-- The size in `(#b#-1#` is not rejected. -/
theorem negative_size_accepted :
    Loop.Reaches (cparseHead negativeSize.env)
        (({ Pcont.new negativeSize.setup with mode := .inlineBinary } : Pcont).enter 0)
        (afterParen negativeSize.setup) ∧
      TokenStart [] [[.list []]] (afterParen negativeSize.setup).toRegs ∧ SizeText [45, 49] (-1) ∧
      Upcoming ⟨negativeSize.env, afterParen negativeSize.setup, []⟩
        ([hash, letterB, hash] ++ [45, 49] ++ [hash]) ∧
      SizeRead ⟨negativeSize.env, afterParen negativeSize.setup, []⟩ []
        ⟨negativeSize.env, negativeEnd, []⟩ ∧
      ¬ Decodes negativeSize.env negativeEnd (-1) [] [[.list []]] := by
  refine ⟨.head rfl (.head rfl .refl), tokenStart_afterParen _,
    .minus [49] (numeral_singleton (by decide)) (by decide), ⟨_, ⟨⟨[], rfl⟩, rfl⟩, rfl⟩,
    ⟨?_, rfl, ?_, rfl⟩, ?_⟩
  · exact .head ⟨by decide, .round rfl⟩ (.head ⟨by decide, .round rfl⟩ (.head ⟨by decide, .round rfl⟩
      (.head ⟨by decide, .round rfl⟩ (.head ⟨by decide, .round rfl⟩ .refl))))
  · exact ⟨_, ⟨⟨[], rfl⟩, rfl⟩, rfl⟩
  · intro h
    obtain ⟨q, R, -, hret, hcode⟩ := h.rejected (by decide)
    exact (coded_cparseHead R hret).2 hcode

end Sfsexp.Proofs
