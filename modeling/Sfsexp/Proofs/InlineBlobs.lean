import Sfsexp.Lib.Decimal
import Sfsexp.Proofs.InlineTokens
import Sfsexp.Proofs.Printing

/-!
# Binary atoms in inline binary mode

The rounds on the header `#b#<length>#`, on the bytes of the blob, whatever they are, and at its end.
-/

namespace Sfsexp.Proofs

open Sfsexp

section Numbers

variable {n d acc : Nat} {rest : List Byte}

lemma digits_byte (hd : d < 10) : digits acc (Decimal.byte d :: rest) = digits (10 * acc + d) rest := by
  have hbyte : ∀ d < 10, 48 ≤ Decimal.byte d ∧ Decimal.byte d ≤ 57 := by decide
  rw [digits, if_pos (hbyte d hd), Decimal.toNat_byte hd, Nat.add_sub_cancel_left]

/-- The digits of a number are read as the number. -/
lemma digits_text (n : Nat) : digits 0 (Decimal.text n ++ rest) = digits n rest := by
  induction n using Nat.strongRecOn generalizing rest with
  | ind n ih =>
    by_cases hn : n < 10
    · rw [Decimal.text_of_lt hn, List.singleton_append, digits_byte hn, Nat.mul_zero, Nat.zero_add]
    · have hlast : n % 10 < 10 := Nat.mod_lt _ (by decide)
      rw [Decimal.text_of_le (by omega), List.append_assoc, List.singleton_append,
        ih (n / 10) (by omega), digits_byte hlast, Nat.div_add_mod]

/-- A text that starts with a digit has neither white space nor a sign in front. -/
lemma atoi_digits {c : Byte} {cs : List Byte} (hlow : 48 ≤ c) :
    atoi (c :: cs) = digits 0 (c :: cs) := by
  have hspace : isCSpace c = false := by
    rw [isCSpace, Bool.or_eq_false_iff, Bool.and_eq_false_iff]
    refine ⟨beq_false_of_ne ?_, .inr (decide_eq_false fun h => ?_)⟩
    · rintro rfl
      exact absurd hlow (by decide)
    · exact absurd (UInt8.le_trans hlow h) (by decide)
  have hminus : c ≠ 45 := by
    rintro rfl
    exact absurd hlow (by decide)
  have hplus : c ≠ 43 := by
    rintro rfl
    exact absurd hlow (by decide)
  rw [atoi, List.dropWhile_cons_of_neg (by simp [hspace])]
  split
  · rename_i heq
    exact absurd (List.cons.inj heq).1 hminus
  · rename_i heq
    exact absurd (List.cons.inj heq).1 hplus
  · rfl

lemma atoi_text (n : Nat) : atoi (Decimal.text n) = n := by
  obtain ⟨c, cs, hcs⟩ := List.exists_cons_of_ne_nil (Decimal.text_ne_nil n)
  obtain ⟨hlow, -⟩ := Decimal.digit_of_mem (n := n) (c := c) (hcs ▸ List.mem_cons_self)
  have hvalue : digits 0 (c :: cs) = n := by
    have htext : digits 0 (Decimal.text n ++ []) = digits n [] := digits_text n
    rwa [List.append_nil, hcs] at htext
  rw [hcs, atoi_digits hlow, hvalue]

/-- The length of a blob survives the conversion to `size_t`. -/
lemma toSize_of_lt (h : n < 2 ^ 31) : toSize (n : Int) = n := by
  rw [toSize]
  omega

end Numbers

section Header

variable {env : Env} {l : Locals} {u w text : List Byte} {L : List (List Sexp)}

/-- The second `#`: the buffer is used anew for the length. -/
lemma header_hash (h : env.Succeeds) (ht : Token .s13 false 0 text L l.toRegs)
    (hrest : Rest env l.t (hash :: w)) :
    Gets env w (fun l' => Token .s14 false 0 [] L l'.toRegs) l := by
  have hs := ht.state
  obtain ⟨m, hstore, hm, htoken⟩ := ht.storeEsc (c := hash) h (by decide)
  have hswitch : switch env hash l = state13 env hash l := by rw [switch, hs]
  have hround : cparseHead env l =
      .ok { m with state := .s14, vcur := 0, valUsed := 0, t := m.t + 1 } := by
    rw [head_of_rest hrest (by decide) (by simp [hs]), hswitch, state13, if_pos rfl, hstore, ok_bind]
  refine .step hround (.here ?_ ?_)
  · dsimp only
    rw [hm]
    exact hrest.tail
  · have hfree : 0 < m.valAllocated := Nat.lt_of_le_of_lt (Nat.zero_le _) htoken.room.free
    exact ⟨⟨htoken.mode, ⟨htoken.room.cells, hfree⟩, htoken.esc, htoken.stack, htoken.depth⟩, rfl, rfl,
      List.take_zero, htoken.squoted, htoken.qdepth⟩

/-- The digits of the length. -/
lemma header_digits (h : env.Succeeds) (ht : Token .s14 false 0 text L l.toRegs)
    (hu : ∀ c ∈ u, 48 ≤ c ∧ c ≤ 57) (hrest : Rest env l.t (u ++ w)) :
    Gets env w (fun l' => Token .s14 false 0 (text ++ u) L l'.toRegs) l := by
  induction u generalizing l text with
  | nil => exact .here hrest (by simpa using ht)
  | cons c u ih =>
    obtain ⟨hlow, hhigh⟩ := hu c List.mem_cons_self
    have hc : c ≠ nul ∧ c ≠ hash ∧ c ≠ backslash := by
      refine ⟨?_, ?_, ?_⟩
      · rintro rfl
        exact absurd hlow (by decide)
      · rintro rfl
        exact absurd hlow (by decide)
      · rintro rfl
        exact absurd hhigh (by decide)
    have hs := ht.state
    obtain ⟨m, hstore, hm, htoken⟩ := ht.storeEsc h hc.2.2
    have hswitch : switch env c l = state14 env c l := by rw [switch, hs]
    have hround : cparseHead env l = .ok { m with t := m.t + 1 } := by
      rw [head_of_rest hrest hc.1 (by simp [hs]), hswitch, state14, if_neg hc.2.1, hstore, ok_bind]
    have hrest' : Rest env (m.t + 1) (u ++ w) := by
      rw [hm]
      exact hrest.tail
    have hgets := ih (l := { m with t := m.t + 1 }) htoken
      (fun d hd => hu d (List.mem_cons_of_mem _ hd)) hrest'
    rw [List.append_assoc, List.singleton_append] at hgets
    exact .step hround hgets

end Header

/-- The first `k` bytes of the blob `data` are in its block. -/
structure Taken (data : List Byte) (k : Nat) (l : Regs) : Prop where
  expected : l.binexpected = data.length
  read : l.binread = k
  cells : (l.bindata.getD []).length = data.length
  present : l.bindata = none → data = []
  taken : (l.bindata.getD []).take k = data.take k

section Taken

variable {env : Env} {l : Locals} {c : Byte} {k : Nat} {data : List Byte}

/-- One byte of the blob, which may be a NUL. -/
lemma Taken.byte (h : Taken data k l.toRegs) (hc : data[k]? = some c)
    (hnext : env.buf[l.t]? = some c) :
    ∃ b, readBlob env l = .ok { l with bindata := b, binread := k + 1, t := l.t + 1 } ∧
      Taken data (k + 1) { l.toRegs with bindata := b, binread := k + 1 } := by
  obtain ⟨hk, hcell⟩ := List.getElem?_eq_some_iff.mp hc
  have hdata := h.cells
  have htaken := h.taken
  cases hcells : l.bindata with
  | none =>
    have hnil := h.present hcells
    rw [hnil] at hk
    exact absurd hk (Nat.not_lt_zero _)
  | some cells =>
    rw [hcells, Option.getD_some] at hdata htaken
    refine ⟨some (cells.set k c), ?_, h.expected, rfl, ?_, ?_, ?_⟩
    · rw [readBlob, if_pos (by rw [h.read, h.expected]; exact hk), Env.read, hnext, ok_bind, hcells]
      dsimp only
      rw [h.read, if_pos (by omega)]
    · rw [Option.getD_some, List.length_set]
      exact hdata
    · intro hnone
      cases hnone
    · rw [Option.getD_some, Cells.take_succ_set (by omega), htaken, List.take_add_one, hc]
      rfl

lemma Taken.block (h : Taken data data.length l.toRegs) : l.bindata.getD [] = data := by
  have htaken := h.taken
  rwa [List.take_of_length_le (Nat.le_of_eq h.cells), List.take_length] at htaken

/-- The variables when the blob was made an atom, which is not in a list yet. -/
def madeBlob (l : Locals) : Locals :=
  { l with allocs := l.allocs + 1, elts := l.elts + 1, sx := [.blob l.bindata l.binread]
           bindata := none, binread := 0, binexpected := 0, state := .s1, valUsed := 0, vcur := 0
           events := l.events ++ heard (·.binary) (.binary (l.bindata.getD []) l.binread)
             l.eventHandlers }

lemma endBlob_eq (h : env.Succeeds) : endBlob env l = .ok ((link (madeBlob l)).getD (madeBlob l)) := by
  rw [endBlob, need_ok h, ok_bind]
  simp only [fire_eq]
  rfl

end Taken

/-- In the middle of the blob `data`, `k` of whose bytes were read. -/
structure Blob (data : List Byte) (k : Nat) (L : List (List Sexp)) (l : Regs) : Prop
    extends Inline L l where
  state : l.state = .s15
  squoted : l.squoted = false
  qdepth : l.qdepth = 0
  expected : l.binexpected = data.length
  read : l.binread = k
  cells : (l.bindata.getD []).length = data.length
  present : l.bindata = none → data = []
  taken : (l.bindata.getD []).take k = data.take k

/-- The children of the open lists when the element `y` was added; outside of a list it is only
kept in `sx`. -/
def attached (y : Sexp) : List (List Sexp) → List (List Sexp)
  | [] => []
  | T :: Ls => (T ++ [y]) :: Ls

/-- The blob `data` was completed. -/
def Completed (data : List Byte) (L : List (List Sexp)) (l : Locals) : Prop :=
  ∃ y, y.tree = .binary data ∧ Whole y ∧ Gap .s1 (attached y L) l.toRegs ∧ l.sx = [y] ∧ 0 < l.elts

section Blobs

variable {env : Env} {l : Locals} {c : Byte} {k : Nat} {data u w text : List Byte}
  {L : List (List Sexp)}

/-- The end of the length. -/
lemma header_end (h : env.Succeeds) (hlen : data.length < 2 ^ 31)
    (ht : Token .s14 false 0 (Decimal.text data.length) L l.toRegs)
    (hrest : Rest env l.t (hash :: w)) :
    Gets env w (fun l' => Blob data 0 L l'.toRegs) l := by
  have hs := ht.state
  have hlt : l.vcur < l.val.length := by
    rw [ht.cursor, ht.room.cells]
    exact ht.room.free
  have hnul : nul ∉ l.val.take l.valUsed := by
    rw [ht.text]
    exact nul_decimal _
  have hsize : toSize (atoi (cstr (l.val.set l.vcur nul))) = data.length := by
    rw [cstr_terminated ht.room ht.cursor hnul, ht.text, atoi_text, toSize_of_lt hlen]
  have hroom : (l.val.set l.vcur nul).length = l.valAllocated := by
    rw [List.length_set, ht.room.cells]
  have hswitch : switch env hash l = state14 env hash l := by rw [switch, hs]
  have hhead : cparseHead env l = endSize env { l with t := l.t + 1, state := .s15 } := by
    rw [head_of_rest hrest (by decide) (by simp [hs]), hswitch, state14, if_pos rfl]
  have hend : endSize env { l with t := l.t + 1, state := .s15 } =
      if 0 < data.length then .ok { l with
        t := l.t + 1, state := .s15, val := l.val.set l.vcur nul, binexpected := data.length
        binread := 0, bindata := some (env.fresh data.length), allocs := l.allocs + 1 }
      else .ok { l with
        t := l.t + 1, state := .s15, val := l.val.set l.vcur nul, binexpected := data.length
        binread := 0, bindata := none } := by
    have hwrite : writeCur nul { l with t := l.t + 1, state := .s15 } =
        .ok { l with t := l.t + 1, state := .s15, val := l.val.set l.vcur nul } := writeCur_ok hlt
    rw [endSize, hwrite, ok_bind]
    dsimp only
    rw [hsize]
    simp only [need_ok h, ok_bind]
  by_cases hpos : 0 < data.length
  · rw [hend, if_pos hpos] at hhead
    refine .step hhead (.here hrest.tail ⟨⟨ht.mode, ⟨hroom, ht.room.free⟩, ht.esc, ht.stack, ht.depth⟩,
      rfl, ht.squoted, ht.qdepth, rfl, rfl, ?_, ?_, ?_⟩)
    · exact env.length_fresh _
    · intro hnone
      cases hnone
    · rw [List.take_zero, List.take_zero]
  · have hnil : data = [] := List.eq_nil_of_length_eq_zero (by omega)
    rw [hend, if_neg hpos] at hhead
    refine .step hhead (.here hrest.tail ⟨⟨ht.mode, ⟨hroom, ht.room.free⟩, ht.esc, ht.stack, ht.depth⟩,
      rfl, ht.squoted, ht.qdepth, rfl, rfl, ?_, fun _ => hnil, ?_⟩)
    · rw [hnil]
      rfl
    · rw [List.take_zero, List.take_zero]

lemma Blob.block (h : Blob data k L l.toRegs) : Taken data k l.toRegs :=
  ⟨h.expected, h.read, h.cells, h.present, h.taken⟩

/-- The blob is complete. -/
lemma blob_end (h : env.Succeeds) (hb : Blob data data.length L l.toRegs) :
    ∃ l', endBlob env l = .ok l' ∧ l'.t = l.t ∧ Completed data L l' := by
  have hfree : 0 < l.valAllocated := Nat.lt_of_le_of_lt (Nat.zero_le _) hb.room.free
  have htree : (Sexp.blob l.bindata l.binread).tree = .binary data := by
    rw [Sexp.tree, hb.block.block]
  have hwhole : Whole (.blob l.bindata l.binread) := hb.cells.trans hb.read.symm
  have hinline : ∀ {L' s}, StackOk s L' → L'.length = L.length →
      Gap .s1 L' { (madeBlob l).toRegs with stack := s } := fun hs hlen =>
    ⟨⟨hb.mode, ⟨hb.room.cells, hfree⟩, hb.esc, hs, hb.depth.trans hlen.symm⟩, rfl, rfl, hb.squoted,
      hb.qdepth⟩
  have helts : 0 < (madeBlob l).elts := Nat.succ_pos _
  cases L with
  | nil =>
    have hlink : link (madeBlob l) = none := link_empty hb.stack
    refine ⟨madeBlob l, by rw [endBlob_eq h, hlink, Option.getD_none], rfl, _, htree, hwhole, ?_, rfl,
      helts⟩
    exact hinline (s := (madeBlob l).stack) hb.stack rfl
  | cons T Ls =>
    obtain ⟨s, hlink, hok⟩ := @link_open (madeBlob l) _ _ hb.stack
    refine ⟨{ madeBlob l with stack := s }, by rw [endBlob_eq h, hlink, Option.getD_some], rfl, _,
      htree, hwhole, ?_, rfl, helts⟩
    exact hinline hok (by simp [attached])

/-- One byte of the blob. -/
lemma blob_byte (hk : k < data.length) (hb : Blob data k L l.toRegs)
    (hrest : Rest env l.t (data.drop k ++ w)) :
    ∃ l', readBlob env l = .ok l' ∧
      Blob data (k + 1) L l'.toRegs ∧ Rest env l'.t (data.drop (k + 1) ++ w) := by
  rw [List.drop_eq_getElem_cons hk, List.cons_append] at hrest
  obtain ⟨b, hrun, htaken⟩ := hb.block.byte (List.getElem?_eq_getElem hk) hrest.get
  exact ⟨_, hrun, ⟨⟨hb.mode, ⟨hb.room.cells, hb.room.free⟩, hb.esc, hb.stack, hb.depth⟩, hb.state,
    hb.squoted, hb.qdepth, htaken.expected, htaken.read, htaken.cells, htaken.present, htaken.taken⟩,
    hrest.tail⟩

/-- The bytes of the blob, of which the first `k` were read. The last one is read and the blob
completed in one round. -/
lemma blob_bytes (h : env.Succeeds) (hk : k ≤ data.length) (hb : Blob data k L l.toRegs)
    (hrest : Rest env l.t (data.drop k ++ c :: w)) :
    Gets env (c :: w) (Completed data L) l := by
  obtain ⟨n, hn⟩ : ∃ n, n = data.length - k := ⟨_, rfl⟩
  induction n generalizing l k with
  | zero =>
    obtain rfl : k = data.length := by omega
    rw [List.drop_length, List.nil_append] at hrest
    obtain ⟨l', hend, ht, hdone⟩ := blob_end h hb
    have hround : cparseHead env l = .ok l' := by
      rw [head_of_blob hrest hb.state, state15, readBlob,
        if_neg (by rw [hb.read, hb.expected]; exact Nat.lt_irrefl _), ok_bind,
        if_pos (hb.read.trans hb.expected.symm), hend]
    exact .step hround (.here (by rwa [ht]) hdone)
  | succ n ih =>
    have hlt : k < data.length := by omega
    obtain ⟨m, hread, hm, hahead⟩ := blob_byte hlt hb hrest
    have hhead : cparseHead env l = state15 env l := by
      rw [List.drop_eq_getElem_cons hlt, List.cons_append] at hrest
      exact head_of_blob hrest hb.state
    by_cases hlast : k + 1 = data.length
    · rw [hlast] at hm hahead
      rw [List.drop_length, List.nil_append] at hahead
      obtain ⟨l', hend, ht, hdone⟩ := blob_end h hm
      have hround : cparseHead env l = .ok l' := by
        rw [hhead, state15, hread, ok_bind, if_pos (hm.read.trans hm.expected.symm), hend]
      exact .step hround (.here (by rwa [ht]) hdone)
    · have hround : cparseHead env l = .ok m := by
        rw [hhead, state15, hread, ok_bind, if_neg (by rw [hm.read, hm.expected]; exact hlast)]
      exact .step hround (ih (by omega) hm hahead (by omega))

/-- A blob with its header. -/
lemma blob_run (h : env.Succeeds) (hlen : data.length < 2 ^ 31) (hg : Gap .s1 L l.toRegs)
    (hrest : Rest env l.t ((Tree.binary data).render ++ w)) :
    Gets env (space :: w) (Completed data L) l := by
  have hbytes : (Tree.binary data).render ++ w =
      hash :: letterB :: hash :: (Decimal.text data.length ++ hash :: (data ++ space :: w)) := by
    simp [Tree.render, Decimal.text]
  rw [hbytes] at hrest
  refine (bare_open h hg (by decide) (by decide) (by decide) hrest).trans ?_
  intro m hahead hm
  refine (hash_b h hm hahead).trans ?_
  intro m hahead hm
  refine (header_hash h hm hahead).trans ?_
  intro m hahead hm
  refine (header_digits h hm (fun c hc => Decimal.digit_of_mem hc) hahead).trans ?_
  intro m hahead hm
  refine (header_end h hlen hm hahead).trans ?_
  intro m hahead hm
  exact blob_bytes h (Nat.zero_le _) hm (by simpa using hahead)

end Blobs

end Sfsexp.Proofs
