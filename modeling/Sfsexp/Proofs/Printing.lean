import Sfsexp.Lib.Cells
import Sfsexp.Lib.Decimal
import Sfsexp.Model.Printer
import Sfsexp.Proofs.Tokens
import Sfsexp.Spec.Rendering

/-!
# `print_sexp_cstr` renders the expression

With every allocation succeeding, the printer leaves the rendering of the expression in its string,
with a NUL behind it.
-/

namespace Sfsexp.Proofs

open Sfsexp

/-- `text` is what was written to the string so far. -/
structure Contains (s : CString) (text : List Byte) : Prop where
  cells : s.base.length = s.len
  curlen : s.curlen = text.length
  taken : s.base.take s.curlen = text
  room : s.curlen ≤ s.len
  terminated : text ≠ [] → ∃ rest, s.base = text ++ nul :: rest

def Wrote (o : Output) (text : List Byte) : Prop := ∃ s, o.str = some s ∧ Contains s text

section Strings

variable {g : StringSetup} {a text : List Byte} {s : CString} {o : Output}

lemma contains_write (hcells : s.base.length = s.len) (hcur : s.curlen = text.length)
    (htext : s.base.take s.curlen = text) (hroom : s.curlen + a.length < s.len) :
    ∃ s', s.write a = .ok s' ∧ Contains s' (text ++ a) := by
  have hlt : s.curlen + a.length < s.base.length := by omega
  have hbase : text ++ a ++ nul :: s.base.drop (s.curlen + a.length + 1) =
      (text ++ a) ++ nul :: s.base.drop (s.curlen + a.length + 1) := rfl
  refine ⟨_, by rw [CString.write, if_pos hlt, htext], ⟨?_, ?_, ?_, ?_, fun _ => ⟨_, hbase⟩⟩⟩
  · simp only [List.length_append, List.length_cons, List.length_drop]
    omega
  · simp [hcur]
  · have hlen : s.curlen + a.length = (text ++ a).length := by simp [hcur]
    dsimp only
    rw [hlen, List.take_left]
  · exact Nat.le_of_lt hroom

lemma write_len {s' : CString} (h : s.write a = .ok s') :
    s'.len = s.len ∧ s'.curlen = s.curlen + a.length := by
  rw [CString.write] at h
  split at h
  · cases h
    exact ⟨rfl, rfl⟩
  · cases h

lemma append_ok (hg : g.Succeeds) (ho : Wrote o text) :
    ∃ o', append g a o = .ok o' ∧ Wrote o' (text ++ a) := by
  obtain ⟨s, hs, hh⟩ := ho
  have hcells := hh.cells
  have hroom := hh.room
  have hpos := g.growsize_pos
  rw [append, hs]
  dsimp only
  by_cases hfull : s.curlen + a.length ≥ s.len
  · obtain ⟨s', hwrite, hh'⟩ := @contains_write a text
      { s with base := s.base ++ g.fresh (g.growsize + a.length)
               len := s.len + (g.growsize + a.length) } (by simp [hcells]) hh.curlen
      (by dsimp only; rw [List.take_append_of_le_length (by omega), hh.taken])
      (by dsimp only; omega)
    rw [if_pos hfull, if_pos (hg _), hwrite]
    exact ⟨_, rfl, s', rfl, hh'⟩
  · obtain ⟨s', hwrite, hh'⟩ := @contains_write a text s hcells hh.curlen hh.taken (by omega)
    rw [if_neg hfull, hwrite]
    exact ⟨_, rfl, s', rfl, hh'⟩

lemma saddch_ok (hg : g.Succeeds) (c : Byte) (ho : Wrote o text) :
    ∃ o', saddch g c o = .ok o' ∧ Wrote o' (text ++ [c]) :=
  append_ok hg ho

lemma snew_ok (hg : g.Succeeds) (ss : Nat) (h : Heap) : Wrote (snew g ss h) [] := by
  rw [snew, hg, hg]
  exact ⟨_, rfl, by simp, rfl, by simp, Nat.zero_le _, fun h => absurd rfl h⟩

end Strings

section Atoms

variable {g : StringSetup} {text val : List Byte} {o : Output} {aty : AtomT}

/-- The text of an atom, escaped where its type asks for it. -/
def bodyOf (aty : AtomT) (text : List Byte) : List Byte :=
  if aty = .dquote then escapeText text else text

lemma bodyOf_cons {c : Byte} {t : List Byte} :
    bodyOf aty (c :: t) =
      (if (c = dquote ∨ c = backslash) ∧ aty = .dquote then [backslash] else []) ++ [c] ++
        bodyOf aty t := by
  unfold bodyOf
  by_cases haty : aty = .dquote
  · simp only [haty, if_true, and_true]
    rw [escapeText]
    split_ifs <;> simp
  · simp [haty]

lemma cstr_cons {c : Byte} {t : List Byte} (hc : c ≠ nul) : cstr (c :: t) = c :: cstr t := by
  rw [cstr, List.takeWhile_cons_of_pos (by simpa using hc)]
  rfl

lemma nul_cstr (val : List Byte) : nul ∉ cstr val := by
  intro hin
  have hne := List.mem_takeWhile_imp hin
  simp at hne

lemma cstr_of_noNul {t : List Byte} (h : nul ∉ t) : cstr t = t := by
  refine List.takeWhile_eq_self_iff.mpr ?_
  intro c hc
  simpa using fun hnul : c = nul => h (hnul ▸ hc)

lemma binHeader_decimal (n : Nat) :
    binHeader n = [hash, letterB, hash] ++ Decimal.text n ++ [hash] := rfl

lemma nul_decimal (n : Nat) : nul ∉ Decimal.text n := fun h =>
  absurd (Decimal.digit_of_mem h).1 (by decide)

/-- No NUL is in front of the bytes of a blob. -/
lemma cstr_binHeader (n : Nat) : cstr (binHeader n) = binHeader n := by
  refine cstr_of_noNul ?_
  rw [binHeader_decimal]
  simp only [List.mem_append, not_or]
  exact ⟨⟨by decide, nul_decimal n⟩, by decide⟩

lemma fault_bind {α β : Type} (a : α) (f : α → Except Fault β) :
    ((.ok a : Except Fault α) >>= f) = f a := rfl

lemma steps_of_bind {ε α β : Type} {x : Except ε α} {f : α → Except ε β} {b : β}
    (h : x >>= f = .ok b) : ∃ a, x = .ok a ∧ f a = .ok b := by
  cases x with
  | error e => cases h
  | ok a => exact ⟨a, rfl, h⟩

lemma printEscape_ok {c : Byte} (hg : g.Succeeds) (ho : Wrote o text) :
    ∃ o', printEscape g aty c o = .ok o' ∧ Wrote o' (text ++
      if (c = dquote ∨ c = backslash) ∧ aty = .dquote then [backslash] else []) := by
  unfold printEscape
  split_ifs
  · exact saddch_ok hg _ ho
  · exact ⟨o, rfl, by simpa using ho⟩

lemma printText_ok (hg : g.Succeeds) (hend : (cstr val).length < val.length) (ho : Wrote o text) :
    ∃ o', printText g aty val o = .ok o' ∧ Wrote o' (text ++ bodyOf aty (cstr val)) := by
  induction val generalizing o text with
  | nil => simp [cstr] at hend
  | cons c val ih =>
    by_cases hc : c = nul
    · subst hc
      refine ⟨o, by rw [printText, if_pos rfl], ?_⟩
      simpa [cstr, bodyOf, escapeText] using ho
    · have hend' : (cstr val).length < val.length := by
        rw [cstr_cons hc] at hend
        simpa using hend
      obtain ⟨o₁, hrun₁, ho₁⟩ := @printEscape_ok g text o aty c hg ho
      obtain ⟨o₂, hrun₂, ho₂⟩ := saddch_ok hg c ho₁
      obtain ⟨o₃, hrun₃, ho₃⟩ := ih hend' ho₂
      refine ⟨o₃, ?_, ?_⟩
      · rw [printText, if_neg hc, hrun₁, fault_bind, hrun₂, fault_bind, hrun₃]
      · rw [cstr_cons hc, bodyOf_cons]
        simpa using ho₃

/-- The quotes around the text of an atom. -/
def quoteBefore (aty : AtomT) : List Byte :=
  if aty = .dquote then [dquote] else if aty = .squote then [tick] else []

def quoteBehind (aty : AtomT) : List Byte := if aty = .dquote then [dquote] else []

lemma renderAtom_eq (t : List Byte) :
    renderAtom aty t = quoteBefore aty ++ bodyOf aty t ++ quoteBehind aty := by
  cases aty <;> simp [renderAtom, bodyOf, quoteBefore, quoteBehind]

lemma openQuote_ok (hg : g.Succeeds) (ho : Wrote o text) :
    ∃ o', openQuote g aty o = .ok o' ∧ Wrote o' (text ++ quoteBefore aty) := by
  unfold openQuote quoteBefore
  split_ifs
  · exact saddch_ok hg _ ho
  · exact saddch_ok hg _ ho
  · exact ⟨o, rfl, by simpa using ho⟩

lemma closeQuote_ok (hg : g.Succeeds) (ho : Wrote o text) :
    ∃ o', closeQuote g aty o = .ok o' ∧ Wrote o' (text ++ quoteBehind aty) := by
  unfold closeQuote quoteBehind
  split_ifs
  · exact saddch_ok hg _ ho
  · exact ⟨o, rfl, by simpa using ho⟩

lemma printVal_ok (hg : g.Succeeds) {valUsed : Nat} (hend : (cstr val).length < val.length)
    (hcover : (cstr val).length ≤ valUsed) (ho : Wrote o text) :
    ∃ o', printVal g aty val valUsed o = .ok o' ∧ Wrote o' (text ++ bodyOf aty (cstr val)) := by
  unfold printVal
  split_ifs with hpos
  · exact printText_ok hg hend ho
  · have hnil : cstr val = [] := List.eq_nil_of_length_eq_zero (by omega)
    exact ⟨o, rfl, by simpa [hnil, bodyOf, escapeText] using ho⟩

lemma printAtom_ok (hg : g.Succeeds) {valAllocated valUsed : Nat}
    (hx : Sealed (.value aty val valAllocated valUsed)) (ho : Wrote o text) :
    ∃ o', printAtom g (.value aty val valAllocated valUsed) o = .ok o' ∧
      Wrote o' (text ++ renderAtom aty (cstr val)) := by
  obtain ⟨hlen, hused, hend, hcover⟩ := hx
  obtain ⟨o₁, hrun₁, ho₁⟩ := @openQuote_ok g text o aty hg ho
  obtain ⟨o₂, hrun₂, ho₂⟩ := @printVal_ok g _ val o₁ aty hg valUsed (by omega) hcover ho₁
  obtain ⟨o₃, hrun₃, ho₃⟩ := @closeQuote_ok g _ o₂ aty hg ho₂
  refine ⟨o₃, ?_, ?_⟩
  · rw [printAtom, hrun₁, fault_bind, hrun₂, fault_bind, hrun₃]
  · rw [renderAtom_eq, ← List.append_assoc, ← List.append_assoc]
    exact ho₃

/-- The bytes of a blob, NUL or not. -/
lemma printBytes_ok (hg : g.Succeeds) (data : List Byte) (ho : Wrote o text) :
    ∃ o', printBytes g data o = .ok o' ∧ Wrote o' (text ++ data) := by
  induction data generalizing o text with
  | nil => exact ⟨o, rfl, by simpa using ho⟩
  | cons c data ih =>
    obtain ⟨o₁, hrun₁, ho₁⟩ := saddch_ok hg c ho
    obtain ⟨o₂, hrun₂, ho₂⟩ := ih ho₁
    refine ⟨o₂, ?_, by simpa using ho₂⟩
    rw [printBytes, hrun₁, fault_bind, hrun₂]

lemma printBlob_ok (hg : g.Succeeds) {bindata : Option (List Byte)} {binlength : Nat}
    (hx : (bindata.getD []).length = binlength) (ho : Wrote o text) :
    ∃ o', printAtom g (.blob bindata binlength) o = .ok o' ∧
      Wrote o' (text ++ (Tree.binary (bindata.getD [])).render) := by
  obtain ⟨o₁, hrun₁, ho₁⟩ := @append_ok g (binHeader binlength) text o hg ho
  obtain ⟨o₂, hrun₂, ho₂⟩ := printBytes_ok hg (bindata.getD []) ho₁
  obtain ⟨o₃, hrun₃, ho₃⟩ := saddch_ok hg space ho₂
  have hsize : sadd g (binHeader binlength) o = .ok o₁ := by
    rw [sadd, cstr_binHeader, hrun₁]
  refine ⟨o₃, ?_, ?_⟩
  · rw [printAtom, hsize, fault_bind, if_neg (by omega), List.take_of_length_le (by omega), hrun₂,
      fault_bind, hrun₃]
  · rw [Tree.render, hx]
    simpa [binHeader] using ho₃

/-- An atom of any kind. -/
lemma printAtom_whole (hg : g.Succeeds) {x : Sexp} (hx : Whole x) (hlist : ∀ elems, x ≠ .list elems)
    (ho : Wrote o text) :
    ∃ o', printAtom g x o = .ok o' ∧ Wrote o' (text ++ x.tree.render) := by
  cases x with
  | value aty val valAllocated valUsed =>
    rw [Sexp.tree, Tree.render]
    exact printAtom_ok hg hx ho
  | blob bindata binlength => exact printBlob_ok hg hx ho
  | list elems => exact absurd rfl (hlist elems)

end Atoms

section Loop

variable {g : StringSetup} {text : List Byte} {o : Output} {rest : List (List Sexp)} {xs : List Sexp}

/-- The printer with the levels `levels` on its stack. -/
def printing (o : Output) (levels : List (List Sexp)) (spare depth : Nat) : PrintLocals :=
  ⟨o, ⟨levels, spare, levels.length⟩, depth⟩

lemma separate_ok (hg : g.Succeeds) (ho : Wrote o text) :
    ∃ o', separate g xs o = .ok o' ∧ Wrote o' (text ++ separator xs) := by
  cases xs with
  | nil => exact ⟨o, rfl, by simpa [separator] using ho⟩
  | cons x xs => exact saddch_ok hg _ ho

section Rounds

variable {o₁ o₂ : Output} {x : Sexp} {spare depth : Nat}

lemma printNext_round (hsep : separate g xs o = .ok o₁) :
    printNext g (printing o ((x :: xs) :: rest) spare depth) =
      .ok (printing o₁ (xs :: rest) spare depth) := by
  simp only [printNext, printing, hsep, attempt]
  rfl

lemma printHead_open_round {elems : List Sexp} (hparen : saddch g lparen o = .ok o₁) :
    printHead g (printing o ((.list elems :: xs) :: rest) spare depth) =
      .ok (printPush g.toSetup elems
        (printing o₁ ((.list elems :: xs) :: rest) spare (depth + 1))) := by
  simp only [printHead, printing, hparen, attempt]
  rfl

lemma printHead_close_round (hparen : saddch g rparen o = .ok o₁)
    (hsep : separate g xs o₁ = .ok o₂) :
    printHead g (printing o ([] :: (x :: xs) :: rest) spare (depth + 1)) =
      .ok (printing o₂ (xs :: rest) (spare + 1) depth) := by
  have hnext := @printNext_round g o₁ rest xs o₂ x (spare + 1) depth hsep
  rw [← hnext]
  simp only [printHead, printClose, printing, Faststack.pop, printParen, hparen, attempt]
  rfl

lemma printHead_atom_round (hlist : ∀ elems, x ≠ .list elems) (hatom : printAtom g x o = .ok o₁)
    (hsep : separate g xs o₁ = .ok o₂) :
    printHead g (printing o ((x :: xs) :: rest) spare depth) =
      .ok (printing o₂ (xs :: rest) spare depth) := by
  have hnext := @printNext_round g o₁ rest xs o₂ x spare depth hsep
  rw [← hnext]
  cases x with
  | value aty val valAllocated valUsed =>
    simp only [printHead, printing, hatom, attempt]
    rfl
  | blob bindata binlength =>
    simp only [printHead, printing, hatom, attempt]
    rfl
  | list elems => exact absurd rfl (hlist elems)

end Rounds

/-- An open paren: the children of the list come next. -/
lemma printHead_open (hg : g.Succeeds) {elems : List Sexp} {spare depth : Nat}
    (ho : Wrote o text) :
    ∃ o' spare', printHead g (printing o ((.list elems :: xs) :: rest) spare depth) =
        .ok (printing o' (elems :: (.list elems :: xs) :: rest) spare' (depth + 1)) ∧
      Wrote o' (text ++ [lparen]) := by
  obtain ⟨o₁, hrun, ho₁⟩ := saddch_ok hg lparen ho
  rw [printHead_open_round hrun]
  by_cases hspare : 0 < spare
  · refine ⟨o₁, spare - 1, ?_, ho₁⟩
    rw [printPush, if_pos (by exact hspare)]
    rfl
  · refine ⟨{ o₁ with allocs := o₁.allocs + 1 }, 0, ?_, ho₁⟩
    rw [printPush, if_neg (by exact hspare), if_pos (hg _)]
    rfl

/-- The children of a list are printed. -/
lemma printHead_close (hg : g.Succeeds) {x : Sexp} {spare depth : Nat} (ho : Wrote o text) :
    ∃ o', printHead g (printing o ([] :: (x :: xs) :: rest) spare (depth + 1)) =
        .ok (printing o' (xs :: rest) (spare + 1) depth) ∧
      Wrote o' (text ++ [rparen] ++ separator xs) := by
  obtain ⟨o₁, hrun₁, ho₁⟩ := saddch_ok hg rparen ho
  obtain ⟨o₂, hrun₂, ho₂⟩ := @separate_ok g _ o₁ xs hg ho₁
  exact ⟨o₂, printHead_close_round hrun₁ hrun₂, ho₂⟩

lemma printHead_atom (hg : g.Succeeds) {x : Sexp} {spare depth : Nat} (hx : Whole x)
    (hlist : ∀ elems, x ≠ .list elems) (ho : Wrote o text) :
    ∃ o', printHead g (printing o ((x :: xs) :: rest) spare depth) =
        .ok (printing o' (xs :: rest) spare depth) ∧
      Wrote o' (text ++ x.tree.render ++ separator xs) := by
  obtain ⟨o₁, hrun₁, ho₁⟩ := printAtom_whole hg hx hlist ho
  obtain ⟨o₂, hrun₂, ho₂⟩ := @separate_ok g _ o₁ xs hg ho₁
  exact ⟨o₂, printHead_atom_round hlist hrun₁ hrun₂, ho₂⟩

lemma separator_forest (xs : List Sexp) : separator (forest xs) = separator xs := by
  cases xs <;> rfl

mutual
/-- The loop prints the first element of the top level and goes on to the next one. -/
lemma prints_element (hg : g.Succeeds) (x : Sexp) (hx : Whole x) (text : List Byte) (o : Output)
    (xs : List Sexp) (rest : List (List Sexp)) (spare depth : Nat) (ho : Wrote o text) :
    ∃ o' spare', Loop.Reaches (printHead g) (printing o ((x :: xs) :: rest) spare depth)
        (printing o' (xs :: rest) spare' depth) ∧
      Wrote o' (text ++ x.tree.render ++ separator xs) := by
  match x, hx with
  | .value aty val valAllocated valUsed, hx =>
    obtain ⟨o', hrun, ho'⟩ := @printHead_atom g text o rest xs hg
      (.value aty val valAllocated valUsed) spare depth hx (by simp) ho
    exact ⟨o', spare, .single hrun, ho'⟩
  | .blob bindata binlength, hx =>
    obtain ⟨o', hrun, ho'⟩ := @printHead_atom g text o rest xs hg (.blob bindata binlength) spare
      depth hx (by simp) ho
    exact ⟨o', spare, .single hrun, ho'⟩
  | .list elems, hx =>
    obtain ⟨o₁, spare₁, hrun₁, ho₁⟩ := @printHead_open g text o rest xs hg elems spare depth ho
    obtain ⟨o₂, spare₂, hreach, ho₂⟩ := prints_chain hg elems hx _ o₁
      ((.list elems :: xs) :: rest) spare₁ (depth + 1) ho₁
    obtain ⟨o₃, hrun₃, ho₃⟩ := @printHead_close g _ o₂ rest xs hg (.list elems) spare₂ depth ho₂
    refine ⟨o₃, spare₂ + 1, .head hrun₁ (.tail hreach hrun₃), ?_⟩
    rw [Sexp.tree, Tree.render]
    simpa using ho₃

/-- The loop prints what is left of the chain on the top level. -/
lemma prints_chain (hg : g.Succeeds) (xs : List Sexp) (hxs : WholeAll xs) (text : List Byte)
    (o : Output) (rest : List (List Sexp)) (spare depth : Nat) (ho : Wrote o text) :
    ∃ o' spare', Loop.Reaches (printHead g) (printing o (xs :: rest) spare depth)
        (printing o' ([] :: rest) spare' depth) ∧
      Wrote o' (text ++ renderAll (forest xs)) := by
  match xs, hxs with
  | [], _ => exact ⟨o, spare, .refl, by simpa [forest, renderAll] using ho⟩
  | x :: xs, hxs =>
    obtain ⟨o₁, spare₁, hreach₁, ho₁⟩ := prints_element hg x hxs.1 text o xs rest spare depth ho
    obtain ⟨o₂, spare₂, hreach₂, ho₂⟩ := prints_chain hg xs hxs.2 _ o₁ rest spare₁ depth ho₁
    refine ⟨o₂, spare₂, hreach₁.trans hreach₂, ?_⟩
    rw [forest, renderAll, separator_forest]
    simpa using ho₂
end

end Loop

section Head

variable {g : StringSetup} {x : Sexp} {val : List Byte} {valAllocated valUsed : Nat}

/-- A buffer that is longer than its string holds a NUL behind it. -/
lemma cstr_split (h : (cstr val).length < val.length) : ∃ rest, val = cstr val ++ nul :: rest := by
  cases hrest : val.dropWhile (· ≠ nul) with
  | nil =>
    have hall : cstr val = val := by
      have hsplit := @List.takeWhile_append_dropWhile _ (fun c : Byte => decide (c ≠ nul)) val
      rwa [hrest, List.append_nil] at hsplit
    rw [hall] at h
    exact absurd h (Nat.lt_irrefl _)
  | cons c rest =>
    obtain ⟨hval, hc⟩ := Cells.dropWhile_cons_split hrest
    have hnul : c = nul := by simpa using hc
    exact ⟨rest, by rwa [hnul] at hval⟩

lemma cstr_append_nul (t rest : List Byte) : cstr (cstr t ++ nul :: rest) = cstr t := by
  have hfree : ∀ c ∈ cstr t, (fun c : Byte => decide (c ≠ nul)) c = true :=
    fun c hc => List.mem_takeWhile_imp (p := fun c : Byte => decide (c ≠ nul)) (l := t) hc
  conv_lhs => rw [cstr]
  rw [List.takeWhile_append_of_pos hfree, List.takeWhile_cons_of_neg (by simp), List.append_nil]

/-- The copied text is the text. -/
lemma cstr_copied (hlen : val.length = valAllocated) (hused : valUsed ≤ valAllocated)
    (hend : (cstr val).length < valAllocated) (hcover : (cstr val).length ≤ valUsed) :
    cstr (val.take valUsed ++ List.replicate (valAllocated - valUsed) nul) = cstr val := by
  obtain ⟨rest, hsplit⟩ := @cstr_split val (by omega)
  have hcopy : ∃ rest', val.take valUsed ++ List.replicate (valAllocated - valUsed) nul =
      cstr val ++ nul :: rest' := by
    have htake : val.take valUsed = cstr val ++ (nul :: rest).take (valUsed - (cstr val).length) := by
      conv_lhs => rw [hsplit]
      rw [List.take_append, List.take_of_length_le hcover]
    rw [htake, List.append_assoc]
    rcases Nat.eq_zero_or_pos (valUsed - (cstr val).length) with hzero | hpos
    · obtain ⟨k, hk⟩ : ∃ k, valAllocated - valUsed = k + 1 := ⟨valAllocated - valUsed - 1, by omega⟩
      rw [hzero, hk]
      exact ⟨_, rfl⟩
    · obtain ⟨k, hk⟩ : ∃ k, valUsed - (cstr val).length = k + 1 :=
        ⟨valUsed - (cstr val).length - 1, by omega⟩
      rw [hk]
      exact ⟨_, rfl⟩
  obtain ⟨rest', hrest'⟩ := hcopy
  rw [hrest', cstr_append_nul]

/-- The head that the printer works on is the expression with copied buffers. -/
lemma copySexp_head (hg : g.Succeeds) (hx : Whole x) (hroot : ∀ n, x ≠ .blob none n) (h : Heap) :
    ∃ y h', copySexp g.toSetup [x.unlinked] h = .ok ([y], h') ∧ Whole (relink y x) ∧
      (relink y x).tree = x.tree := by
  cases x with
  | value aty val valAllocated valUsed =>
    obtain ⟨hlen, hused, hend, hcover⟩ := hx
    have hne : val ≠ [] := by
      rintro rfl
      simp at hlen
      omega
    have hcopy := cstr_copied hlen hused hend hcover
    have hrun : copyElement g.toSetup (.value aty val valAllocated valUsed) h =
        .ok (some (.value aty (val.take valUsed ++ List.replicate (valAllocated - valUsed) nul)
          valAllocated valUsed), h.next.next) := by
      simp [copyElement, copyText, hg _, hne, hused, hlen]
    have hcells : (val.take valUsed ++ List.replicate (valAllocated - valUsed) nul).length =
        valAllocated := by
      simp only [List.length_append, List.length_take, List.length_replicate]
      omega
    refine ⟨.value aty (val.take valUsed ++ List.replicate (valAllocated - valUsed) nul)
      valAllocated valUsed, h.next.next, ?_, ⟨hcells, hused, ?_, ?_⟩, ?_⟩
    · change copySexp g.toSetup [.value aty val valAllocated valUsed] h = _
      rw [copySexp, hrun]
      rfl
    · rwa [hcopy]
    · rwa [hcopy]
    · change Tree.atom aty (cstr _) = Tree.atom aty (cstr val)
      rw [hcopy]
  | blob bindata binlength =>
    cases bindata with
    | none => exact absurd rfl (hroot binlength)
    | some data =>
      have hlen : data.length = binlength := hx
      have hrun : copyElement g.toSetup (.blob (some data) binlength) h =
          .ok (some (.blob (some data) binlength), h.next.next) := by
        simp [copyElement, copyBlob, hg _, hlen, List.take_of_length_le (Nat.le_of_eq hlen)]
      refine ⟨.blob (some data) binlength, h.next.next, ?_, hx, rfl⟩
      rw [Sexp.unlinked, copySexp, hrun]
      · rfl
      · simp
  | list elems =>
    have hrun : copyElement g.toSetup (.list []) h = .ok (some (.list []), h.next) := by
      simp [copyElement, copySexp, hg _, Except.map]
    refine ⟨.list [], h.next, ?_, hx, rfl⟩
    rw [Sexp.unlinked, copySexp, hrun]
    rfl

/-- The loop ends when the chain on the bottom level is printed. -/
lemma printHead_last {o : Output} {spare : Nat} :
    printHead g (printing o [[]] spare 0) = .error (.ok (printing o [] (spare + 1) 0)) := rfl

/-- The printer leaves the rendering of the expression in a new string. -/
theorem printSexpCstr_whole (hg : g.Succeeds) (hx : Whole x) (hroot : ∀ n, x ≠ .blob none n)
    (xs : List Sexp) (ss : Nat) (errno : ErrCode) :
    ∃ n p s, printSexpCstr g n none (x :: xs) ss errno = .ret p ∧ p.str = some s ∧
      p.retval = toInt s.curlen ∧ Contains s x.tree.render := by
  have hnew := snew_ok hg ss ⟨0, errno⟩
  obtain ⟨y, h, hcopy, hsealed, htree⟩ := copySexp_head hg hx hroot (snew g ss ⟨0, errno⟩).toHeap
  have hnew' : Wrote { h.next.next with str := (snew g ss ⟨0, errno⟩).str } [] := hnew
  obtain ⟨o, spare, hreach, ho⟩ := prints_element hg (relink y x) hsealed [] _ [] [] 0 0 hnew'
  have hstart : printPush g.toSetup [relink y x]
      ⟨{ h.next with str := (snew g ss ⟨0, errno⟩).str }, makeStack, 0⟩ =
      printing { h.next.next with str := (snew g ss ⟨0, errno⟩).str } [[relink y x]] 0 0 := by
    rw [printPush, if_neg (by exact Nat.lt_irrefl 0), if_pos (hg _)]
    rfl
  have halloc : g.alloc h.allocs = true := hg _
  obtain ⟨s, hs, hcontains⟩ := ho
  have hlast : Loop.Halts (printHead g) (printing o [[]] spare 0)
      (.ok (printing o [] (spare + 1) 0)) := Loop.halts_of_exit printHead_last
  obtain ⟨n, hrun⟩ := Loop.halts_of_reaches hreach hlast
  refine ⟨n, ⟨toInt s.curlen, some s, o.errno⟩, s, ?_, rfl, ?_, ?_⟩
  · rw [printSexpCstr]
    dsimp only
    rw [hcopy]
    dsimp only
    rw [halloc, Bool.not_true, if_neg Bool.false_ne_true, hstart, hrun]
    dsimp only [printFinish, printing, closeParens]
    rw [hs]
  · dsimp only
  · rw [htree] at hcontains
    simpa [separator] using hcontains

theorem printSexpCstr_renders (hg : g.Succeeds) (hx : Sealed x) (xs : List Sexp) (ss : Nat)
    (errno : ErrCode) :
    ∃ n p s, printSexpCstr g n none (x :: xs) ss errno = .ret p ∧ p.str = some s ∧
      p.retval = toInt s.curlen ∧ Contains s x.tree.render := by
  refine printSexpCstr_whole hg hx.whole ?_ xs ss errno
  rintro n rfl
  exact hx

/-- A larger bound does not change what the printer returns. -/
lemma printSexpCstr_mono {n m : Nat} (hnm : n ≤ m) {str : Option CString} {sx : List Sexp}
    {ss : Nat} {errno : ErrCode} {p : Printed}
    (h : printSexpCstr g n str sx ss errno = .ret p) : printSexpCstr g m str sx ss errno = .ret p := by
  cases sx with
  | nil => exact h
  | cons x xs =>
    unfold printSexpCstr at h ⊢
    dsimp only at h ⊢
    split at h
    · exact h
    · exact h
    · split_ifs at h ⊢
      · exact h
      · rename_i y _ heap _ _
        generalize printPush g.toSetup [relink y x] _ = l at h ⊢
        cases hrun : Loop.run (printHead g) n l with
        | none =>
          rw [hrun] at h
          cases h
        | some r =>
          rw [hrun] at h
          rwa [Loop.run_mono hnm hrun]

end Head

end Sfsexp.Proofs
