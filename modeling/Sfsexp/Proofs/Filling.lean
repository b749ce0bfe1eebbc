import Sfsexp.Model.BufferPrinter
import Sfsexp.Proofs.Printing
import Sfsexp.Spec.Traversal

/-!
# `print_sexp` puts out the traversal until its buffer is full

What each piece of the printer does to a buffer that holds a text already: it adds its own text, or
stops with a terminator inside the buffer, or clashes with the end of the buffer.
-/

namespace Sfsexp.Proofs

open Sfsexp Spec

/-- `text` was written to a buffer of `size` bytes. -/
structure Covers (size : Nat) (text : List Byte) (w : Window) : Prop where
  cells : w.cells.length = size
  cursor : w.b = text.length
  left : text.length + w.left = size
  taken : w.cells.take text.length = text

/-- There is room for a terminator, too. -/
structure Holds (size : Nat) (text : List Byte) (w : Window) : Prop extends Covers size text w where
  room : 0 < w.left

/-- The printer stopped and wrote a NUL to `b`, the last of its writes. -/
structure Ended (size : Nat) (cells : List Byte) (b : Nat) : Prop where
  length : cells.length = size
  inside : b < size
  terminator : cells[b]? = some nul

/-- The buffer is cut off behind `size - 1` bytes of the text. -/
def CutOff (size : Nat) (text cells : List Byte) (b : Nat) : Prop :=
  cells = text.take (size - 1) ++ [nul] ∧ b = size - 1

/-- A piece of the printer adds the text of `ps` to `text`. -/
def Fills (size : Nat) (text : List Byte) (ps : List Piece) : FillExec Window → Prop
  | .ok w => ¬ Clash size text.length ps ∧ Holds size (text ++ spelled ps) w
  | .error (.full cells b) => ¬ Clash size text.length ps ∧
      size ≤ (text ++ spelled ps).length ∧ Ended size cells b ∧
      ((∃ t : List Byte, ps = t.map .byte) → CutOff size (text ++ spelled ps) cells b)
  | .error (.fault f) => f = .string ∧ Clash size text.length ps

@[simp] lemma except_bind {ε α β : Type} (a : α) (f : α → Except ε β) :
    ((.ok a : Except ε α) >>= f) = f a := rfl

section Clash

variable {size o : Nat} {ps qs : List Piece}

lemma clash_append : Clash size o (ps ++ qs) ↔
    Clash size o ps ∨ Clash size (o + (spelled ps).length) qs := by
  induction ps generalizing o with
  | nil => simp [Clash]
  | cons p ps ih =>
    cases p with
    | byte c =>
      rw [List.cons_append, Clash, ih, Clash]
      simp [spelled, Piece.bytes, Nat.add_assoc, Nat.add_comm]
    | blob data =>
      rw [List.cons_append, Clash, ih, Clash]
      simp only [spelled, List.flatMap_cons, List.length_append, or_assoc, Nat.add_assoc]

lemma not_clash_bytes (t : List Byte) : ¬ Clash size o (t.map .byte) := by
  induction t generalizing o with
  | nil => exact id
  | cons c t ih =>
    rw [List.map_cons, Clash]
    exact ih

/-- Nothing clashes with the end of a buffer that was passed already. -/
lemma not_clash_behind (hsize : 0 < size) (ho : size ≤ o) : ¬ Clash size o ps := by
  induction ps generalizing o with
  | nil => exact id
  | cons p ps ih =>
    cases p with
    | byte c =>
      rw [Clash]
      exact ih (by omega)
    | blob data =>
      rw [Clash]
      rintro (⟨h0, -⟩ | ⟨-, hend⟩ | htail)
      · omega
      · simp only [binHeader, List.length_append, List.length_cons] at hend
        omega
      · exact ih (by omega) htail

end Clash

section Windows

variable {size : Nat} {text : List Byte} {ps qs : List Piece} {w : Window} {c : Byte}

lemma Holds.lt (h : Holds size text w) : text.length < size := by
  have := h.left
  have := h.room
  omega

/-- A piece that puts out nothing. -/
lemma Fills.none (h : Holds size text w) : Fills size text [] (.ok w) := by
  refine ⟨id, ?_⟩
  rwa [spelled_nil, List.append_nil]

/-- Once the printer stopped, nothing more is put out. -/
lemma Fills.stop {e : FillStop} (hsize : 0 < size) (hx : Fills size text ps (.error e)) :
    Fills size text (ps ++ qs) (.error e) := by
  have hlen : text.length + (spelled ps).length = (text ++ spelled ps).length := by simp
  match e, hx with
  | .full cells b, ⟨hclash, hend, hended, hcut⟩ =>
    refine ⟨?_, ?_, hended, ?_⟩
    · rw [clash_append, hlen]
      exact not_or.mpr ⟨hclash, not_clash_behind hsize hend⟩
    · rw [spelled_append, ← List.append_assoc, List.length_append]
      omega
    · rintro ⟨t, ht⟩
      obtain ⟨t₁, t₂, rfl, rfl, rfl⟩ := List.append_eq_map_iff.mp ht
      obtain ⟨hcells, hb⟩ := hcut ⟨t₁, rfl⟩
      refine ⟨?_, hb⟩
      rw [hcells, spelled_append, ← List.append_assoc]
      exact congrArg (· ++ [nul]) (List.take_append_of_le_length (by omega)).symm
  | .fault f, ⟨hstring, hclash⟩ =>
    refine ⟨hstring, ?_⟩
    rw [clash_append]
    exact .inl hclash

/-- One piece after the other. -/
lemma Fills.bind {x : FillExec Window} {f : Window → FillExec Window} (hsize : 0 < size)
    (hx : Fills size text ps x)
    (hf : ∀ w, Holds size (text ++ spelled ps) w → Fills size (text ++ spelled ps) qs (f w)) :
    Fills size text (ps ++ qs) (x >>= f) := by
  have hlen : text.length + (spelled ps).length = (text ++ spelled ps).length := by simp
  cases x with
  | error e => exact hx.stop hsize
  | ok w =>
    obtain ⟨hclash, hw⟩ := hx
    have hrest := hf w hw
    rw [except_bind]
    match f w, hrest with
    | .ok w', ⟨hclash', hw'⟩ =>
      refine ⟨?_, ?_⟩
      · rw [clash_append, hlen]
        exact not_or.mpr ⟨hclash, hclash'⟩
      · rwa [spelled_append, ← List.append_assoc]
    | .error (.full cells b), ⟨hclash', hend, hended, hcut⟩ =>
      refine ⟨?_, ?_, hended, ?_⟩
      · rw [clash_append, hlen]
        exact not_or.mpr ⟨hclash, hclash'⟩
      · rwa [spelled_append, ← List.append_assoc]
      · rintro ⟨t, ht⟩
        obtain ⟨t₁, t₂, rfl, rfl, rfl⟩ := List.append_eq_map_iff.mp ht
        rw [spelled_append, ← List.append_assoc]
        exact hcut ⟨t₂, rfl⟩
    | .error (.fault f'), ⟨hstring, hclash'⟩ =>
      refine ⟨hstring, ?_⟩
      rw [clash_append, hlen]
      exact .inr hclash'

lemma write_ok {i : Nat} {a : List Byte} (h : i + a.length ≤ w.cells.length) :
    w.write i a = .ok { w with
      cells := w.cells.take i ++ a ++ w.cells.drop (i + a.length) } := by
  rw [Window.write, if_pos h]

/-- Bytes are written behind the text, and the cursor is moved over them. -/
lemma write_advance (h : Covers size text w) {a : List Byte} (ha : a.length ≤ w.left) :
    ∃ w', (w.write w.b a >>= fun w => w.advance a.length) = .ok w' ∧
      Covers size (text ++ a) w' := by
  have hleft := h.left
  have hcells := h.cells
  have hcursor := h.cursor
  rw [write_ok (by omega)]
  refine ⟨_, if_pos (by exact ha), ?_, ?_, ?_, ?_⟩
  · simp
    omega
  · simp [hcursor]
  · simp
    omega
  · dsimp only
    rw [hcursor, h.taken, List.length_append, List.take_append_of_le_length (by simp),
      List.take_of_length_le (by simp)]

/-- The last byte of the text is replaced by the terminator. -/
lemma outOfSpace_covers (h : Covers size text w) (hpos : 0 < text.length) :
    ∃ cells, w.outOfSpace = .error (.full cells (text.length - 1)) ∧
      Ended size cells (text.length - 1) ∧
      (text.length = size → cells = text.take (size - 1) ++ [nul]) := by
  obtain ⟨b, hb⟩ : ∃ b, text.length = b + 1 := ⟨text.length - 1, by omega⟩
  have hleft := h.left
  have hcells := h.cells
  have hfits : b + [nul].length ≤ w.cells.length := by simp; omega
  have hlen : (w.cells.take b).length = b := by simp; omega
  have htake : w.cells.take b = text.take b := by
    rw [← h.taken, List.take_take, Nat.min_eq_left (by omega)]
  rw [hb, Nat.add_sub_cancel]
  refine ⟨w.cells.take b ++ [nul] ++ w.cells.drop (b + 1), ?_, ⟨?_, by omega, ?_⟩, ?_⟩
  · rw [Window.outOfSpace, h.cursor, hb]
    dsimp only
    rw [write_ok hfits]
    rfl
  · simp
    omega
  · rw [List.append_assoc, List.getElem?_append_right (by omega), hlen]
    simp
  · intro hfull
    rw [htake, ← hfull, List.drop_of_length_le (by omega), List.append_nil, Nat.add_sub_cancel]

lemma outOfSpace_start (h : Covers size [] w) : w.outOfSpace = .error (.fault .string) := by
  rw [Window.outOfSpace, h.cursor]
  rfl

lemma fills_addChar (h : Holds size text w) : Fills size text [.byte c] (w.addChar c) := by
  have htext : text ++ spelled [.byte c] = text ++ [c] := by simp [spelled, Piece.bytes]
  obtain ⟨w', hrun, hw'⟩ := write_advance h.toCovers (a := [c]) h.room
  have hleft := hw'.left
  have hadd : w.addChar c = if w'.left = 0 then w'.outOfSpace else .ok w' := by
    rw [Window.addChar, ← bind_assoc]
    exact congrArg (· >>= fun w => if w.left = 0 then w.outOfSpace else .ok w) hrun
  rw [hadd]
  split_ifs with hlast
  · have hlen : (text ++ [c]).length = size := by omega
    obtain ⟨cells, hfull, hended, hcut⟩ := outOfSpace_covers hw' (by simp)
    rw [hfull]
    refine ⟨not_clash_bytes [c], by rw [htext]; omega, hended, fun _ => ?_⟩
    rw [htext]
    exact ⟨hcut hlen, by rw [hlen]⟩
  · refine ⟨not_clash_bytes [c], ?_⟩
    rw [htext]
    exact ⟨hw', Nat.pos_of_ne_zero hlast⟩

lemma addChar_ok (h : Holds size text w) (hleft : 1 < w.left) :
    ∃ w', w.addChar c = .ok w' ∧ Holds size (text ++ [c]) w' := by
  have hfills := fills_addChar (c := c) h
  have hlen := h.left
  match w.addChar c, hfills with
  | .ok w', ⟨_, hw'⟩ => exact ⟨w', rfl, by simpa [spelled, Piece.bytes] using hw'⟩
  | .error (.full cells b), ⟨_, hend, _⟩ =>
    simp [spelled, Piece.bytes] at hend
    omega
  | .error (.fault f), ⟨_, hclash⟩ => exact absurd hclash (not_clash_bytes [c])

lemma fills_addEscape (h : Holds size text w) (aty : AtomT) :
    Fills size text
      ((if (c = dquote ∨ c = backslash) ∧ aty = .dquote then [backslash] else []).map .byte)
      (w.addEscape aty c) := by
  rw [Window.addEscape]
  split_ifs
  · exact fills_addChar h
  · exact .none h

/-- The text of an atom. -/
lemma fills_addText {aty : AtomT} {val : List Byte} (hsize : 0 < size)
    (hend : (cstr val).length < val.length) (h : Holds size text w) :
    Fills size text ((bodyOf aty (cstr val)).map .byte) (w.addText aty val) := by
  induction val generalizing text w with
  | nil => simp [cstr] at hend
  | cons c val ih =>
    by_cases hc : c = nul
    · have hnil : cstr (c :: val) = [] := by simp [cstr, hc]
      rw [hnil, Window.addText, if_pos (.inl hc)]
      simpa [bodyOf, escapeText] using Fills.none h
    · rw [cstr_cons hc] at hend ⊢
      have hleft : w.left ≠ 0 := Nat.ne_of_gt h.room
      rw [Window.addText, if_neg (by simp [hc, hleft]), bodyOf_cons, List.append_assoc,
        List.map_append, List.map_append]
      refine Fills.bind hsize (fills_addEscape h aty) ?_
      intro w₁ h₁
      refine Fills.bind hsize (fills_addChar h₁) ?_
      intro w₂ h₂
      exact ih (by simpa using hend) h₂

/-- The size of a blob, in front of its bytes. -/
lemma addSize_cases (h : Holds size text w) (n : Nat) :
    ((Window.sizeText n).length < w.left ∧
      ∃ w', w.addSize n = .ok w' ∧ Holds size (text ++ Window.sizeText n) w') ∨
    (w.left ≤ (Window.sizeText n).length ∧
      ∃ w', w.addSize n = w'.outOfSpace ∧ Covers size text w') := by
  have hleft := h.left
  have hcells := h.cells
  have hcursor := h.cursor
  have hroom := h.room
  have hfits : w.b + ((Window.sizeText n).take (w.left - 1) ++ [nul]).length ≤ w.cells.length := by
    simp
    omega
  obtain ⟨w', hw'⟩ : ∃ w' : Window, w' = { w with
      cells := w.cells.take w.b ++ ((Window.sizeText n).take (w.left - 1) ++ [nul]) ++
        w.cells.drop (w.b + ((Window.sizeText n).take (w.left - 1) ++ [nul]).length) } := ⟨_, rfl⟩
  have hrun : w.addSize n = if (Window.sizeText n).length ≥ w.left then w'.outOfSpace
      else w'.advance (Window.sizeText n).length := by
    rw [Window.addSize, write_ok hfits, ← hw']
    simp only [hw']
    rfl
  have hlen : w'.cells.length = size := by
    rw [hw']
    dsimp only
    rw [List.length_append, List.length_append, List.length_drop, List.length_take]
    omega
  have hpre : w.cells.take w.b = text := by rw [hcursor, h.taken]
  have hcells' : w'.cells = text ++ ((Window.sizeText n).take (w.left - 1) ++ [nul] ++
      w.cells.drop (w.b + ((Window.sizeText n).take (w.left - 1) ++ [nul]).length)) := by
    rw [hw', ← hpre]
    simp
  by_cases hfull : (Window.sizeText n).length ≥ w.left
  · refine .inr ⟨hfull, w', by rw [hrun, if_pos hfull], hlen, ?_, ?_, ?_⟩
    · rw [hw']
      exact hcursor
    · rw [hw']
      exact hleft
    · rw [hcells', List.take_left]
  · refine .inl ⟨by omega, { w' with
      b := w'.b + (Window.sizeText n).length, left := w'.left - (Window.sizeText n).length },
      ?_, ⟨hlen, ?_, ?_, ?_⟩, ?_⟩
    · rw [hrun, if_neg hfull, Window.advance, if_pos (by rw [hw']; dsimp only; omega)]
    · simp [hw', hcursor]
    · simp [hw']
      omega
    · dsimp only
      have hall : (Window.sizeText n).take (w.left - 1) = Window.sizeText n :=
        List.take_of_length_le (by omega)
      rw [hcells', hall, List.append_assoc, ← List.append_assoc, List.take_left]
    · rw [hw']
      dsimp only
      omega

lemma render_binary (data : List Byte) :
    (Piece.blob data).bytes = [hash] ++ [letterB] ++ [hash] ++ Window.sizeText data.length ++ data ++
      [space] := by
  simp [Piece.bytes, Tree.render, Window.sizeText]

lemma binHeader_eq (n : Nat) : binHeader n = [hash] ++ [letterB] ++ [hash] ++ Window.sizeText n := by
  simp [binHeader, Window.sizeText]

/-- The bytes of a blob that fits. -/
lemma addBytes_ok {bindata : Option (List Byte)} {data : List Byte} (hdata : bindata.getD [] = data)
    (h : Holds size text w) (hn : data.length ≤ w.left) :
    ∃ w', w.addBytes bindata data.length = .ok w' ∧ Covers size (text ++ data) w' := by
  rw [Window.addBytes, hdata]
  split_ifs with hpos hshort
  · omega
  · obtain ⟨w', hrun, hw'⟩ := write_advance h.toCovers hn
    refine ⟨w', ?_, hw'⟩
    rw [List.take_of_length_le (Nat.le_refl _)]
    exact hrun
  · have hnil : data = [] := List.eq_nil_of_length_eq_zero (by omega)
    refine ⟨w, rfl, ?_⟩
    rw [hnil, List.append_nil]
    exact h.toCovers

/-- There is no cell for a byte behind a full buffer. -/
lemma addChar_behind (h : Covers size text w) (hfull : w.left = 0) :
    w.addChar c = .error (.fault .string) := by
  have hleft := h.left
  have hcells := h.cells
  have hcursor := h.cursor
  rw [Window.addChar, Window.write, if_neg (by simp; omega)]
  rfl

/-- The end of a blob that does not fit. -/
lemma fills_full {data : List Byte} {t : List Byte} (h : Covers size t w) (hpos : 0 < t.length)
    (hclash : ¬ Clash size text.length [.blob data])
    (hlong : size ≤ (text ++ spelled [.blob data]).length) :
    Fills size text [.blob data] w.outOfSpace := by
  obtain ⟨cells, hfull, hended, -⟩ := outOfSpace_covers h hpos
  rw [hfull]
  refine ⟨hclash, hlong, hended, ?_⟩
  rintro ⟨_ | ⟨c, _⟩, ht⟩
  · cases ht
  · cases ht

/-- When the bytes of a blob clash with the end of the buffer. -/
lemma clash_blob (o : Nat) (data : List Byte) : Clash size o [.blob data] ↔
    (o = 0 ∧ size ≤ 3) ∨
      (0 < data.length ∧ o + 3 + (Window.sizeText data.length).length + data.length = size) := by
  have hlen : (binHeader data.length ++ data).length =
      3 + (Window.sizeText data.length).length + data.length := by
    rw [binHeader_eq]
    simp
    omega
  rw [Clash, Clash, or_false, hlen, List.length_pos_iff, ← Nat.add_assoc, ← Nat.add_assoc]

/-- The space behind a blob belongs to it. -/
lemma fills_lastByte {data t : List Byte} {x : FillExec Window}
    (ht : t ++ [c] = text ++ spelled [.blob data]) (hclash : ¬ Clash size text.length [.blob data])
    (h : Fills size t [.byte c] x) : Fills size text [.blob data] x := by
  have hspell : t ++ spelled [.byte c] = text ++ spelled [.blob data] := by
    simpa [spelled, Piece.bytes] using ht
  cases x with
  | ok w' =>
    obtain ⟨-, hw'⟩ := h
    exact ⟨hclash, hspell ▸ hw'⟩
  | error stop =>
    cases stop with
    | full cells b =>
      obtain ⟨-, hend, hended, -⟩ := h
      refine ⟨hclash, hspell ▸ hend, hended, ?_⟩
      rintro ⟨_ | ⟨c, _⟩, ht⟩
      · cases ht
      · cases ht
    | fault f => exact absurd h.2 (not_clash_bytes [c])

lemma fills_addBlob {bindata : Option (List Byte)} {data : List Byte}
    (hdata : bindata.getD [] = data) (hsize : 0 < size) (h : Holds size text w) :
    Fills size text [.blob data] (w.addBlob bindata data.length) := by
  have hleft := h.left
  have hroom := h.room
  have htext : text ++ spelled [.blob data] =
      text ++ [hash] ++ [letterB] ++ [hash] ++ Window.sizeText data.length ++ data ++ [space] := by
    rw [spelled, List.flatMap_singleton, render_binary]
    simp
  have hlen : (text ++ spelled [.blob data]).length =
      text.length + 3 + (Window.sizeText data.length).length + data.length + 1 := by
    rw [htext]
    simp
    omega
  have hsizeText : 0 < (Window.sizeText data.length).length := by simp [Window.sizeText]
  have hclash := @clash_blob size text.length data
  rw [Window.addBlob]
  split_ifs with h3
  · obtain ⟨w₁, hrun₁, h₁⟩ := addChar_ok (c := hash) h (by omega)
    have hl₁ := h₁.left
    simp only [List.length_append, List.length_singleton] at hl₁
    obtain ⟨w₂, hrun₂, h₂⟩ := addChar_ok (c := letterB) h₁ (by omega)
    have hl₂ := h₂.left
    simp only [List.length_append, List.length_singleton] at hl₂
    obtain ⟨w₃, hrun₃, h₃⟩ := addChar_ok (c := hash) h₂ (by omega)
    have hl₃ := h₃.left
    simp only [List.length_append, List.length_singleton] at hl₃
    simp only [hrun₁, hrun₂, hrun₃, except_bind]
    rcases addSize_cases h₃ data.length with ⟨hlt, w₄, hrun₄, h₄⟩ | ⟨hge, w₄, hrun₄, h₄⟩
    · have hl₄ := h₄.left
      have hr₄ := h₄.room
      simp only [List.length_append, List.length_singleton] at hl₄
      rw [hrun₄, except_bind]
      split_ifs with hshort
      · refine fills_full h₄.toCovers ?_ ?_ (by omega)
        · simp only [List.length_append, List.length_singleton]
          omega
        · rw [hclash]
          omega
      · obtain ⟨w₅, hrun₅, h₅⟩ := addBytes_ok hdata h₄ (by omega)
        have hl₅ := h₅.left
        simp only [List.length_append, List.length_singleton] at hl₅
        rw [hrun₅, except_bind]
        by_cases hfull : w₅.left = 0
        · rw [addChar_behind h₅ hfull]
          refine ⟨rfl, hclash.mpr (.inr ⟨by omega, by omega⟩)⟩
        · have h₆ : Holds size _ w₅ := ⟨h₅, Nat.pos_of_ne_zero hfull⟩
          refine fills_lastByte htext.symm ?_ (fills_addChar h₆)
          rw [hclash]
          omega
    · rw [hrun₄]
      have hfill : Fills size text [.blob data] w₄.outOfSpace := by
        refine fills_full h₄ (by simp) ?_ (by omega)
        rw [hclash]
        omega
      obtain ⟨cells, hfull, -⟩ := outOfSpace_covers h₄ (by simp)
      rw [hfull] at hfill ⊢
      exact hfill
  · rcases Nat.eq_zero_or_pos text.length with hzero | hpos
    · have hnil : text = [] := List.eq_nil_of_length_eq_zero hzero
      rw [outOfSpace_start (hnil ▸ h.toCovers)]
      exact ⟨rfl, hclash.mpr (.inl ⟨hzero, by omega⟩)⟩
    · refine fills_full h.toCovers hpos ?_ (by omega)
      rw [hclash]
      omega

/-- The test for a full buffer behind an atom finds room. -/
lemma Fills.test {x : FillExec Window} (hx : Fills size text ps x) :
    Fills size text ps (x >>= fun w => if w.left = 0 then w.outOfSpace else .ok w) := by
  match x, hx with
  | .ok w, hx =>
    have hroom : w.left ≠ 0 := Nat.ne_of_gt hx.2.room
    change Fills size text ps (if w.left = 0 then w.outOfSpace else .ok w)
    rwa [if_neg hroom]
  | .error (.full _ _), hx => exact hx
  | .error (.fault _), hx => exact hx

lemma fills_addOpenQuote (h : Holds size text w) (aty : AtomT) :
    Fills size text ((quoteBefore aty).map .byte) (w.addOpenQuote aty) := by
  rw [Window.addOpenQuote, quoteBefore]
  split_ifs
  · exact fills_addChar h
  · exact fills_addChar h
  · exact .none h

lemma fills_addCloseQuote (h : Holds size text w) (aty : AtomT) :
    Fills size text ((quoteBehind aty).map .byte) (w.addCloseQuote aty) := by
  have hroom := h.room
  rw [Window.addCloseQuote, quoteBehind]
  by_cases haty : aty = .dquote
  · rw [if_pos haty, if_pos ⟨haty, hroom⟩]
    exact fills_addChar h
  · rw [if_neg haty, if_neg (by simp [haty])]
    exact .none h

end Windows

mutual
/-- A text atom holds a C string within the bytes that are used of its buffer, a binary atom the
bytes its length counts. -/
def Printable : Sexp → Prop
  | .value aty val valAllocated valUsed =>
    aty ≠ .binary ∧ 0 < valUsed ∧ Sealed (.value aty val valAllocated valUsed)
  | .blob bindata binlength => (bindata.getD []).length = binlength
  | .list elems => PrintableAll elems

def PrintableAll : List Sexp → Prop
  | [] => True
  | x :: xs => Printable x ∧ PrintableAll xs
end

mutual
/-- What the loop of the printer asks of an expression: a text atom holds a C string, a binary atom
the bytes its length counts. -/
def Legible : Sexp → Prop
  | .value aty val _ valUsed => aty ≠ .binary ∧ 0 < valUsed ∧ (cstr val).length < val.length
  | .blob bindata binlength => (bindata.getD []).length = binlength
  | .list elems => LegibleAll elems

def LegibleAll : List Sexp → Prop
  | [] => True
  | x :: xs => Legible x ∧ LegibleAll xs
end

mutual
lemma legible_of_printable (x : Sexp) (h : Printable x) : Legible x := by
  match x, h with
  | .value aty val valAllocated valUsed, ⟨hbinary, hused, hlen, _, hend, _⟩ =>
    exact ⟨hbinary, hused, hlen ▸ hend⟩
  | .blob bindata binlength, h => exact h
  | .list elems, h => exact legibleAll_of_printable elems h

lemma legibleAll_of_printable (xs : List Sexp) (h : PrintableAll xs) : LegibleAll xs := by
  match xs, h with
  | [], _ => trivial
  | x :: xs, h => exact ⟨legible_of_printable x h.1, legibleAll_of_printable xs h.2⟩
end

section Rounds

variable {size : Nat} {text : List Byte} {g : Setup} {l : FillLocals} {w w' : Walk}
  {ps : List Piece}

/-- The printer has the elements of the traversal on its stack. -/
structure Tracks (l : FillLocals) (w : Walk) : Prop where
  levels : w.levels = l.stack.levels.map forest
  height : l.stack.height = l.stack.levels.length
  spare : w.spare = l.stack.spare
  allocs : w.allocs = l.allocs
  depth : w.depth = l.depth
  below : ∀ level ∈ l.stack.levels.tail, level ≠ []
  legible : ∀ level ∈ l.stack.levels, LegibleAll level

lemma fills_addAtom {x : Sexp} (hsize : 0 < size) (hx : Legible x) (h : Holds size text l.toWindow)
    (hlist : ∀ elems, x ≠ .list elems) :
    Fills size text (atomPieces x.tree) (l.toWindow.addAtom x) := by
  cases x with
  | list elems => exact absurd rfl (hlist elems)
  | blob bindata binlength =>
    obtain rfl := hx
    exact (fills_addBlob rfl hsize h).test
  | value aty val valAllocated valUsed =>
    obtain ⟨hbinary, hused, hend⟩ := hx
    rw [Sexp.tree, atomPieces, renderAtom_eq, List.append_assoc, List.map_append, List.map_append,
      Window.addAtom]
    refine Fills.bind hsize (fills_addOpenQuote h aty) ?_
    intro w₁ h₁
    have hval : w₁.addValue aty val valUsed = w₁.addText aty val := by
      rw [Window.addValue, if_pos ⟨hbinary, hused⟩]
    rw [hval]
    refine Fills.bind hsize (fills_addText hsize hend h₁) ?_
    intro w₂ h₂
    exact (fills_addCloseQuote h₂ aty).test

/-- A round puts out `ps` on the way to `w'`. -/
def Round (g : Setup) (size : Nat) (text : List Byte) (l : FillLocals) (ps : List Piece)
    (w' : Walk) : Prop :=
  ∃ (x : FillExec Window) (l' : FillLocals), Fills size text ps x ∧
    fillHead g l = (l'.withWindow x).mapError .inl ∧ Tracks l' w'

/-- Some rounds put out `ps` on the way to `w'`. -/
def FillsTo (g : Setup) (size : Nat) (text : List Byte) (l : FillLocals) (ps : List Piece)
    (w' : Walk) : Prop :=
  ∃ x : FillExec Window, Fills size text ps x ∧
    (∀ v, x = .ok v → ∃ l', Loop.Reaches (fillHead g) l l' ∧ l'.toWindow = v ∧ Tracks l' w') ∧
    ∀ e, x = .error e → Loop.Halts (fillHead g) l (.inl e)

lemma Tracks.window (ht : Tracks l w) (v : Window) : Tracks { l with toWindow := v } w :=
  ⟨ht.levels, ht.height, ht.spare, ht.allocs, ht.depth, ht.below, ht.legible⟩

lemma Round.fillsTo (h : Round g size text l ps w') : FillsTo g size text l ps w' := by
  obtain ⟨x, l', hx, hrun, ht⟩ := h
  refine ⟨x, hx, ?_, ?_⟩
  · rintro v rfl
    exact ⟨_, .single hrun, rfl, ht.window v⟩
  · rintro e rfl
    exact Loop.halts_of_exit hrun

lemma fills_separate (h : Holds size text l.toWindow) (xs : List Sexp) :
    Fills size text ((separator (forest xs)).map .byte) (l.toWindow.separate xs) := by
  cases xs with
  | nil => exact .none h
  | cons x xs => exact fills_addChar h

/-- The next element of the top level comes first. -/
def passedOn (l : FillLocals) (xs : List Sexp) (rest : List (List Sexp)) : FillLocals :=
  { l with stack := { l.stack with levels := xs :: rest } }

lemma withWindow_next {x : FillExec Window} {y : Sexp} {xs : List Sexp} {rest : List (List Sexp)}
    (hl : l.stack.levels = (y :: xs) :: rest) :
    (l.withWindow x >>= FillLocals.next) =
      (passedOn l xs rest).withWindow (x >>= fun w => w.separate xs) := by
  cases x with
  | error e => rfl
  | ok v =>
    change FillLocals.next { l with toWindow := v } = _
    rw [FillLocals.next]
    simp only [hl]
    rfl

lemma Tracks.passed {y : Sexp} {xs : List Sexp} {rest : List (List Sexp)} (ht : Tracks l w)
    (hl : l.stack.levels = (y :: xs) :: rest) :
    Tracks (passedOn l xs rest) { w with levels := forest xs :: rest.map forest } := by
  have hheight := ht.height
  have hbelow := ht.below
  have hlegible := ht.legible
  rw [hl] at hheight hbelow hlegible
  obtain ⟨htop, hrest⟩ := List.forall_mem_cons.mp hlegible
  exact ⟨rfl, hheight, ht.spare, ht.allocs, ht.depth, hbelow,
    List.forall_mem_cons.mpr ⟨htop.2, hrest⟩⟩

/-- A round that prints an atom. -/
lemma round_atom {x : Sexp} {xs : List Sexp} {rest : List (List Sexp)} (hsize : 0 < size)
    (ht : Tracks l w) (h : Holds size text l.toWindow) (hl : l.stack.levels = (x :: xs) :: rest)
    (hlist : ∀ elems, x ≠ .list elems) :
    ∃ ps w', w.step g = some (ps, w') ∧ Round g size text l ps w' := by
  have hlevels : w.levels = (x.tree :: forest xs) :: rest.map forest := by
    rw [ht.levels, hl]
    rfl
  have hx : Legible x := (ht.legible (x :: xs) (by simp [hl])).1
  have hstep : w.step g = some (atomPieces x.tree ++ (separator (forest xs)).map .byte,
      { w with levels := forest xs :: rest.map forest }) := by
    rw [Walk.step, hlevels]
    cases x with
    | list elems => exact absurd rfl (hlist elems)
    | value aty val valAllocated valUsed => simp [Sexp.tree, Walk.next, hlevels]
    | blob bindata binlength => simp [Sexp.tree, Walk.next, hlevels]
  refine ⟨_, _, hstep, l.toWindow.addAtom x >>= fun w => w.separate xs, _, ?_, ?_, ht.passed hl⟩
  · exact Fills.bind hsize (fills_addAtom hsize hx h hlist) fun v hv =>
      @fills_separate size _ { l with toWindow := v } hv xs
  · rw [← withWindow_next hl, fillHead, hl]
    cases x with
    | list elems => exact absurd rfl (hlist elems)
    | value aty val valAllocated valUsed => rfl
    | blob bindata binlength => rfl

lemma push_window (elems : List Sexp) (v : Window) :
    FillLocals.push g elems { l with toWindow := v } =
      { FillLocals.push g elems l with toWindow := v } := by
  rw [FillLocals.push, FillLocals.push]
  split_ifs <;> rfl

/-- A level for the children of the list on top. -/
lemma Tracks.push {elems : List Sexp} (ht : Tracks l w) (helems : LegibleAll elems)
    (htop : ∀ level, l.stack.levels.head? = some level → level ≠ []) :
    Tracks (FillLocals.push g elems l) (w.push g (forest elems)) := by
  have hheight := ht.height
  have hspare := ht.spare
  have hbelow : ∀ level ∈ l.stack.levels, level ≠ [] := by
    intro level hmem
    cases hl : l.stack.levels with
    | nil => simp [hl] at hmem
    | cons top rest =>
      rw [hl] at hmem
      rcases List.mem_cons.mp hmem with rfl | hmem
      · exact htop level (by simp [hl])
      · exact ht.below level (by simpa [hl] using hmem)
  have hlegible : ∀ level ∈ elems :: l.stack.levels, LegibleAll level :=
    List.forall_mem_cons.mpr ⟨helems, ht.legible⟩
  rw [FillLocals.push, Walk.push, hspare, ht.allocs]
  split_ifs
  · exact ⟨by simp [ht.levels], by simp [hheight], rfl, rfl, ht.depth, hbelow, hlegible⟩
  · refine ⟨by simp [ht.levels], by simp [hheight], ?_, rfl, ht.depth, hbelow, hlegible⟩
    simp
    omega
  · exact ⟨ht.levels, hheight, rfl, rfl, ht.depth, ht.below, ht.legible⟩

/-- A round that opens a list. -/
lemma round_open {elems xs : List Sexp} {rest : List (List Sexp)} (ht : Tracks l w)
    (h : Holds size text l.toWindow) (hl : l.stack.levels = (.list elems :: xs) :: rest) :
    ∃ ps w', w.step g = some (ps, w') ∧ Round g size text l ps w' := by
  have hlevels : w.levels = (.list (forest elems) :: forest xs) :: rest.map forest := by
    rw [ht.levels, hl]
    rfl
  have hx : LegibleAll (.list elems :: xs) := by
    apply ht.legible
    rw [hl]
    exact List.mem_cons_self ..
  have hstep : w.step g =
      some ([.byte lparen], Walk.push g (forest elems) { w with depth := w.depth + 1 }) := by
    rw [Walk.step, hlevels]
  have ht' : Tracks { l with depth := l.depth + 1 } { w with depth := w.depth + 1 } :=
    ⟨ht.levels, ht.height, ht.spare, ht.allocs, congrArg (· + 1) ht.depth, ht.below, ht.legible⟩
  refine ⟨_, _, hstep, _, _, fills_addChar h, ?_, ht'.push hx.1 ?_⟩
  · rw [fillHead, hl]
    dsimp only
    rw [FillLocals.openList]
    cases l.toWindow.addChar lparen with
    | error e => rfl
    | ok v =>
      change Except.ok (FillLocals.push g elems { l with depth := l.depth + 1, toWindow := v }) = _
      exact congrArg Except.ok (push_window (l := { l with depth := l.depth + 1 }) elems v)
  · intro level hlevel
    dsimp only at hlevel
    rw [hl, List.head?_cons] at hlevel
    obtain rfl := Option.some.inj hlevel
    simp

/-- The level of a list is done. -/
def popped (l : FillLocals) (rest : List (List Sexp)) (h : Nat) : FillLocals :=
  { l with stack := ⟨rest, l.stack.spare + 1, h⟩ }

lemma fills_addParen (h : Holds size text l.toWindow) :
    ∃ x : FillExec Window,
      Fills size text (if 0 < l.depth then [.byte rparen] else []) x ∧
      l.addParen = FillLocals.withWindow { l with depth := l.depth - 1 } x := by
  rw [FillLocals.addParen]
  by_cases hd : 0 < l.depth
  · rw [if_pos hd, if_pos hd]
    exact ⟨_, fills_addChar h, rfl⟩
  · have hzero : l.depth - 1 = l.depth := by omega
    rw [if_neg hd, if_neg hd, hzero]
    exact ⟨.ok l.toWindow, .none h, rfl⟩

/-- A round that closes a list. -/
lemma round_close {rest : List (List Sexp)} (hsize : 0 < size) (ht : Tracks l w)
    (h : Holds size text l.toWindow) (hl : l.stack.levels = [] :: rest) :
    ∃ ps w', w.step g = some (ps, w') ∧ Round g size text l ps w' := by
  have hlevels : w.levels = [] :: rest.map forest := by
    rw [ht.levels, hl]
    rfl
  have hheight : l.stack.height = rest.length + 1 := by
    rw [ht.height, hl]
    rfl
  have hbelow := ht.below
  have hlegible := ht.legible
  rw [hl] at hbelow hlegible
  have hclose : fillHead g l =
      ((popped l rest rest.length).addParen >>= FillLocals.next).mapError .inl := by
    rw [fillHead, hl]
    dsimp only
    rw [FillLocals.close, Faststack.pop, hl, hheight]
    rfl
  obtain ⟨x, hx, hparen⟩ := @fills_addParen size text (popped l rest rest.length) h
  have hpopped : Tracks { popped l rest rest.length with depth := l.depth - 1 }
      { w with levels := rest.map forest, spare := w.spare + 1, depth := w.depth - 1 } := by
    refine ⟨rfl, rfl, congrArg (· + 1) ht.spare, ht.allocs, congrArg (· - 1) ht.depth, ?_, ?_⟩
    · exact fun level hmem => hbelow level (List.mem_of_mem_tail hmem)
    · exact fun level hmem => hlegible level (List.mem_cons_of_mem _ hmem)
  cases rest with
  | nil =>
    have hstep : w.step g = some ((if 0 < w.depth then [.byte rparen] else []) ++ [],
        { w with levels := [], spare := w.spare + 1, depth := w.depth - 1 }) := by
      rw [Walk.step, hlevels]
      rfl
    refine ⟨_, _, hstep, x, _, ?_, ?_, hpopped⟩
    · rw [List.append_nil, ht.depth]
      exact hx
    · rw [hclose, hparen]
      cases x <;> rfl
  | cons level rest =>
    obtain ⟨y, xs, rfl⟩ : ∃ y xs, level = y :: xs :=
      List.exists_cons_of_ne_nil (hbelow level (by simp))
    have hstep : w.step g = some ((if 0 < w.depth then [.byte rparen] else []) ++
        (separator (forest xs)).map .byte,
        { w with levels := forest xs :: rest.map forest, spare := w.spare + 1
                 depth := w.depth - 1 }) := by
      rw [Walk.step, hlevels]
      rfl
    refine ⟨_, _, hstep, x >>= fun w => w.separate xs, _, ?_, ?_, hpopped.passed rfl⟩
    · rw [ht.depth]
      exact Fills.bind hsize hx fun v hv => @fills_separate size _ { l with toWindow := v } hv xs
    · rw [hclose, hparen]
      have hlevel : FillLocals.stack { popped l ((y :: xs) :: rest) ((y :: xs) :: rest).length with
          depth := l.depth - 1 } = ⟨(y :: xs) :: rest, l.stack.spare + 1, rest.length + 1⟩ := rfl
      rw [withWindow_next (by rw [hlevel])]
      rfl

/-- Every round puts out what the traversal puts out. -/
lemma round_step (hsize : 0 < size) (ht : Tracks l w) (h : Holds size text l.toWindow) :
    (w.step g = none ∧ fillHead g l = .error (.inr l)) ∨
      ∃ ps w', w.step g = some (ps, w') ∧ Round g size text l ps w' := by
  match hl : l.stack.levels with
  | [] =>
    refine .inl ⟨?_, by rw [fillHead, hl]⟩
    rw [Walk.step, ht.levels, hl]
    rfl
  | [] :: rest => exact .inr (round_close hsize ht h hl)
  | (.list elems :: xs) :: rest => exact .inr (round_open ht h hl)
  | (.value aty val valAllocated valUsed :: xs) :: rest =>
    exact .inr (round_atom hsize ht h hl (by simp))
  | (.blob bindata binlength :: xs) :: rest =>
    exact .inr (round_atom hsize ht h hl (by simp))

/-- The loop puts out what the traversal puts out. -/
lemma fillsTo_puts (hsize : 0 < size) (hputs : w.Puts g ps w') (ht : Tracks l w)
    (h : Holds size text l.toWindow) : FillsTo g size text l ps w' := by
  induction hputs generalizing l text with
  | refl w => exact ⟨.ok l.toWindow, .none h, fun v hv => ⟨l, .refl, Except.ok.inj hv, ht⟩,
      fun e he => by cases he⟩
  | @step w w₁ w₂ ps qs hstep _ ih =>
    rcases round_step (g := g) hsize ht h with ⟨hnone, -⟩ | ⟨ps', w', hstep', hx⟩
    · rw [hnone] at hstep
      cases hstep
    · obtain ⟨rfl, rfl⟩ := Prod.mk.inj (Option.some.inj (hstep.symm.trans hstep'))
      obtain ⟨x, hx, hok, herror⟩ := hx.fillsTo
      cases x with
      | error e => exact ⟨.error e, hx.stop hsize, fun v hv => (by cases hv), herror⟩
      | ok v =>
        obtain ⟨l₁, hreach, hv, ht₁⟩ := hok v rfl
        have h₁ : Holds size _ l₁.toWindow := hv ▸ hx.2
        obtain ⟨y, hy, hok', herror'⟩ := ih ht₁ h₁
        refine ⟨y, ?_, ?_, ?_⟩
        · exact Fills.bind (x := .ok v) (f := fun _ => y) hsize hx fun _ _ => hy
        · intro v' hv'
          obtain ⟨l₂, hreach', hl₂⟩ := hok' v' hv'
          exact ⟨l₂, hreach.trans hreach', hl₂⟩
        · intro e he
          exact Loop.halts_of_reaches hreach (herror' e he)

end Rounds

end Sfsexp.Proofs
