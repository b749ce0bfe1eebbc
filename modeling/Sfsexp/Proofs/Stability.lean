import Sfsexp.Proofs.Elements
import Sfsexp.Proofs.RoundTrip
import Sfsexp.Spec.Stability

/-!
# Which expressions survive printing

The big steps read the rendering of an expression as that expression exactly when it is stable. For
the direction from reading to stability, bytes are counted: an escape makes the text one backslash
shorter than its source, so a text of the full length was read without one.
-/

namespace Sfsexp.Proofs

open Sfsexp Spec

section Counting

variable {u w p rest text r : List Byte} {c : Byte} {k : Nat} {esc e : Bool}

/-- A source that is longer than the text by its escapes, and has as many backslashes more, is the
text itself: the byte behind the text is no backslash. -/
lemma source_eq (h : u ++ c :: w = p ++ rest) (hlen : p.length = u.length + k)
    (hcount : p.count backslash = u.count backslash + k) (hc : c ≠ backslash) :
    k = 0 ∧ p = u ∧ rest = c :: w := by
  have hpre : u <+: p := by
    refine List.prefix_of_prefix_length_le (List.prefix_append u (c :: w)) ?_ (by omega)
    rw [h]
    exact List.prefix_append p rest
  obtain ⟨extra, rfl⟩ := hpre
  rw [List.append_assoc] at h
  have hrest : c :: w = extra ++ rest := List.append_cancel_left h
  simp only [List.length_append, List.count_append] at hlen hcount
  cases extra with
  | nil =>
    have hk : k = 0 := by simpa using hlen
    exact ⟨hk, List.append_nil u, hrest.symm⟩
  | cons d extra =>
    have hd : d = c := by
      simp only [List.cons_append, List.cons.injEq] at hrest
      exact hrest.1.symm
    have hle := List.count_le_length (a := backslash) (l := extra)
    rw [List.count_cons_of_ne (by rw [hd]; exact hc)] at hcount
    simp only [List.length_cons] at hlen
    omega

/-- A text that ends in the backslash that the flag tells of. -/
def Flagged (esc : Bool) (text : List Byte) : Prop := esc = true → text.getLast? = some backslash

lemma flagged_push : Flagged (c == backslash) (text ++ [c]) := by
  intro h
  rw [List.getLast?_concat]
  exact congrArg some (by simpa using h)

lemma flagged_false : Flagged false text := fun h => absurd h (by decide)

/-- An escape replaces a backslash. -/
lemma count_escape (h : text.getLast? = some backslash) :
    (text.dropLast ++ [c]).count backslash + 1 = text.count backslash + [c].count backslash ∧
      (text.dropLast ++ [c]).length = text.length := by
  have hsplit := List.dropLast_append_getLast? backslash h
  constructor
  · conv_rhs => rw [← hsplit]
    simp only [List.count_append, List.count_singleton_self]
    omega
  · conv_rhs => rw [← hsplit]
    simp

/-- How the text of a bare atom relates to its source `p`, read with `k` escapes. -/
lemma bareEnd_count (hflag : Flagged esc text) (h : bareEnd esc text w = some (r, e, rest)) :
    ∃ p k, w = p ++ rest ∧ r.length + k = text.length + p.length ∧
      r.count backslash + k = text.count backslash + p.count backslash ∧
      ∃ d v, rest = d :: v ∧ isAtomByte d = false ∧ (k = 0 → (∀ b ∈ p, isAtomByte b = true) ∧
        Unescaped esc (p ++ [d])) := by
  induction w generalizing esc text with
  | nil => cases h
  | cons c w ih =>
    unfold bareEnd at h
    split_ifs at h with he hnil ha
    · have hlast := hflag (by simp_all)
      obtain ⟨p, k, hw, hlen, hcount, d, v, hrest, hd, -⟩ := ih flagged_false h
      obtain ⟨hescape, hsame⟩ := @count_escape text c hlast
      refine ⟨c :: p, k + 1, by rw [hw]; rfl, ?_, ?_, d, v, hrest, hd, fun hk => absurd hk (by omega)⟩
      · rw [List.length_cons]
        omega
      · rw [List.count_cons]
        rw [List.count_singleton] at hescape
        omega
    · obtain ⟨p, k, hw, hlen, hcount, d, v, hrest, hd, hclean⟩ := ih flagged_push h
      refine ⟨c :: p, k, by rw [hw]; rfl, ?_, ?_, d, v, hrest, hd, fun hk => ?_⟩
      · simp only [List.length_append, List.length_cons, List.length_nil] at hlen ⊢
        omega
      · rw [List.count_append, List.count_singleton] at hcount
        rw [List.count_cons]
        omega
      · obtain ⟨hatom, hfree⟩ := hclean hk
        exact ⟨List.forall_mem_cons.mpr ⟨ha, hatom⟩, by simpa using he, hfree⟩
    · cases h
      refine ⟨[], 0, rfl, rfl, rfl, c, w, rfl, by simpa using ha, fun _ => ⟨by simp, ?_⟩⟩
      exact ⟨by simpa using he, trivial⟩

/-- How a double-quoted text relates to its source `p`, read with `k` escapes. -/
lemma quotedEnd_count (hflag : Flagged esc text) (h : quotedEnd esc text w = some (r, rest)) :
    ∃ p k, w = p ++ dquote :: rest ∧ r.length + k = text.length + p.length ∧
      r.count backslash + k = text.count backslash + p.count backslash ∧
      (k = 0 → dquote ∉ p ∧ Unescaped esc (p ++ [dquote])) := by
  induction w generalizing esc text with
  | nil => cases h
  | cons c w ih =>
    unfold quotedEnd at h
    split_ifs at h with he hnil hd
    · have hlast := hflag (by simp_all)
      obtain ⟨p, k, hw, hlen, hcount, -⟩ := ih flagged_false h
      obtain ⟨hescape, hsame⟩ := @count_escape text c hlast
      refine ⟨c :: p, k + 1, by rw [hw]; rfl, ?_, ?_, fun hk => absurd hk (by omega)⟩
      · rw [List.length_cons]
        omega
      · rw [List.count_cons]
        rw [List.count_singleton] at hescape
        omega
    · cases h
      subst hd
      exact ⟨[], 0, rfl, rfl, rfl, fun _ => ⟨by simp, by simpa using he, trivial⟩⟩
    · obtain ⟨p, k, hw, hlen, hcount, hclean⟩ := ih flagged_push h
      refine ⟨c :: p, k, by rw [hw]; rfl, ?_, ?_, fun hk => ?_⟩
      · simp only [List.length_append, List.length_cons, List.length_nil] at hlen ⊢
        omega
      · rw [List.count_append, List.count_singleton] at hcount
        rw [List.count_cons]
        omega
      · obtain ⟨hquote, hfree⟩ := hclean hk
        exact ⟨by simp [hquote, Ne.symm hd], by simpa using he, hfree⟩

/-- A quoted list is read without changing a byte. -/
lemma listEnd_source {depth : Int} {inString : Bool}
    (h : listEnd inString esc depth text w = some (r, rest)) :
    ∃ p, w = p ++ rest ∧ r = text ++ p ∧ ∀ v, listEnd inString esc depth text (p ++ v) = some (r, v) := by
  induction w generalizing esc text inString depth with
  | nil => cases h
  | cons c w ih =>
    unfold listEnd at h
    split_ifs at h with hend
    · cases h
      refine ⟨[c], rfl, rfl, fun v => ?_⟩
      rw [List.singleton_append, listEnd, if_pos hend]
    · obtain ⟨p, hw, hr, hall⟩ := ih h
      refine ⟨c :: p, by rw [hw]; rfl, by rw [hr]; simp, fun v => ?_⟩
      rw [List.cons_append, listEnd, if_neg hend, hall]

/-- A quoted list ends with its paren. -/
lemma listEnd_last {depth : Int} {inString : Bool}
    (h : listEnd inString esc depth text w = some (r, rest)) : ∃ t, r = t ++ [rparen] := by
  induction w generalizing esc text inString depth with
  | nil => cases h
  | cons c w ih =>
    unfold listEnd at h
    split_ifs at h with hend
    · cases h
      exact ⟨text, by rw [hend.2.2.1]⟩
    · exact ih h

/-- An escape replaces the first byte of a text by an escapable one. -/
def Headed (P : Byte → Prop) (text : List Byte) : Prop := ∃ b u, text = b :: u ∧ P b

lemma Headed.push {P : Byte → Prop} (h : Headed P text) : Headed P (text ++ [c]) := by
  obtain ⟨b, u, rfl, hb⟩ := h
  exact ⟨b, u ++ [c], rfl, hb⟩

lemma Headed.escape {P : Byte → Prop} (hP : ∀ b, isEscapable b = true → P b) (h : Headed P text)
    (hc : isEscapable c = true) : Headed P (text.dropLast ++ [c]) := by
  obtain ⟨b, u, rfl, hb⟩ := h
  cases u with
  | nil => exact ⟨c, [], rfl, hP c hc⟩
  | cons d u => exact ⟨b, (d :: u).dropLast ++ [c], rfl, hb⟩

lemma bareEnd_head {P : Byte → Prop} (hP : ∀ b, isEscapable b = true → P b)
    (htext : Headed P text) (h : bareEnd esc text w = some (r, e, rest)) : Headed P r := by
  induction w generalizing esc text with
  | nil => cases h
  | cons c w ih =>
    unfold bareEnd at h
    split_ifs at h with he hnil ha
    · exact ih (htext.escape hP (by simp_all)) h
    · exact ih htext.push h
    · cases h
      exact htext

lemma quotedEnd_head {P : Byte → Prop} (hP : ∀ b, isEscapable b = true → P b)
    (htext : Headed P text) (h : quotedEnd esc text w = some (r, rest)) : Headed P r := by
  induction w generalizing esc text with
  | nil => cases h
  | cons c w ih =>
    unfold quotedEnd at h
    split_ifs at h with he hnil hd
    · exact ih (htext.escape hP (by simp_all)) h
    · cases h
      exact htext
    · exact ih htext.push h

end Counting

section Runs

variable {u w text : List Byte} {c : Byte} {esc : Bool}

lemma bareEnd_run (ha : ∀ d ∈ u, isAtomByte d = true) (hc : isAtomByte c = false)
    (hfree : Unescaped esc (u ++ [c])) :
    bareEnd esc text (u ++ c :: w) = some (text ++ u, flagAfter esc u, c :: w) := by
  induction u generalizing esc text with
  | nil =>
    obtain ⟨he, -⟩ := hfree
    rw [List.nil_append, bareEnd, he, hc]
    simp [flagAfter]
  | cons d u ih =>
    obtain ⟨he, hfree⟩ := hfree
    rw [List.cons_append, bareEnd, he, ha d List.mem_cons_self]
    have hrest := @ih (text ++ [d]) (d == backslash)
      (fun b hb => ha b (List.mem_cons_of_mem _ hb)) hfree
    simpa [flagAfter] using hrest

lemma quotedEnd_run (hd : dquote ∉ u) (hfree : Unescaped esc (u ++ [dquote])) :
    quotedEnd esc text (u ++ dquote :: w) = some (text ++ u, w) := by
  induction u generalizing esc text with
  | nil =>
    obtain ⟨he, -⟩ := hfree
    rw [List.nil_append, quotedEnd, he]
    simp
  | cons d u ih =>
    obtain ⟨he, hfree⟩ := hfree
    obtain ⟨hne, hd⟩ := not_or.mp (mt List.mem_cons.mpr hd)
    rw [List.cons_append, quotedEnd, he, if_neg Bool.false_ne_true, if_neg (Ne.symm hne)]
    have hrest := @ih (text ++ [d]) (d == backslash) hd hfree
    simpa using hrest

/-- The rendering of a double-quoted text is unescaped. -/
lemma quotedEnd_escapeText :
    quotedEnd false text (escapeText u ++ dquote :: w) = some (text ++ u, w) := by
  induction u generalizing text with
  | nil => simp [escapeText, quotedEnd]
  | cons d u ih =>
    rw [escapeText]
    split_ifs with hd
    · have he : isEscapable d = true := by
        rcases hd with rfl | rfl <;> rfl
      have hrest := @ih (text ++ [d])
      rw [List.cons_append, List.cons_append, quotedEnd, Bool.false_and,
        if_neg Bool.false_ne_true, if_neg (by decide), quotedEnd, he]
      simpa using hrest
    · obtain ⟨hq, hb⟩ := not_or.mp hd
      have hclear : (d == backslash) = false := by simpa using hb
      have hrest := @ih (text ++ [d])
      rw [List.cons_append, quotedEnd, Bool.false_and, if_neg Bool.false_ne_true, if_neg hq, hclear]
      simpa using hrest

/-- A flag left by an earlier token does not matter when the first byte cannot be escaped. -/
lemma quotedEnd_flag (hc : isEscapable c = false) :
    quotedEnd esc text (c :: w) = quotedEnd false text (c :: w) := by
  rw [quotedEnd, quotedEnd, hc, Bool.and_false, Bool.and_false]

/-- The same for a bare atom. -/
lemma bareEnd_flag (hc : isEscapable c = false) (ha : isAtomByte c = true) :
    bareEnd esc text (c :: w) = bareEnd false text (c :: w) := by
  rw [bareEnd, bareEnd, hc, Bool.and_false, Bool.and_false, ha]
  rfl

lemma flagAfter_concat : flagAfter esc (u ++ [c]) = (c == backslash) := by
  induction u generalizing esc with
  | nil => rfl
  | cons d u ih => exact ih

end Runs

section Atoms

variable {text r u w v rest : List Byte} {c d next : Byte} {esc e : Bool}

/-- A token does not start with an escaped byte. -/
lemma bareEnd_stray (h : bareEnd esc [] (c :: w) = some (r, e, rest)) :
    (esc && isEscapable c) = false := by
  by_contra he
  rw [bareEnd, if_pos (by simpa using he), if_pos rfl] at h
  cases h

lemma quotedEnd_stray (h : quotedEnd esc [] (c :: w) = some (r, rest)) :
    (esc && isEscapable c) = false := by
  by_contra he
  rw [quotedEnd, if_pos (by simpa using he), if_pos rfl] at h
  cases h

/-- A bare atom behind an apostrophe whose source is its text. -/
lemma bareEnd_self (hne : text ≠ []) (hb : next ≠ backslash)
    (h : bareEnd esc [] (text ++ next :: w) = some (text, e, rest)) :
    (∀ b ∈ text, isAtomByte b = true) ∧ Unescaped esc (text ++ [next]) := by
  obtain ⟨b, u, rfl⟩ := List.exists_cons_of_ne_nil hne
  have hstray : (esc && isEscapable b) = false := bareEnd_stray h
  -- the flag plays no part at the first byte
  have hclear : bareEnd false [] (b :: u ++ next :: w) = some (b :: u, e, rest) ∨
      isAtomByte b = false := by
    cases esc with
    | false => exact .inl h
    | true =>
      by_cases ha : isAtomByte b = true
      · rw [List.cons_append, bareEnd_flag (by simpa using hstray) ha] at h
        exact .inl h
      · exact .inr (by simpa using ha)
  rcases hclear with hclear | ha
  · obtain ⟨p, k, hsource, hlen, hcount, f, t, hrest, hf, hclean⟩ :=
      bareEnd_count flagged_false hclear
    obtain ⟨hk, hp, hnextrest⟩ := source_eq hsource (by simpa using hlen.symm)
      (by simpa using hcount.symm) hb
    obtain ⟨hatom, hfree⟩ := hclean hk
    rw [hrest] at hnextrest
    rw [hp, (List.cons.inj hnextrest).1] at hfree
    refine ⟨hp ▸ hatom, ?_⟩
    rw [List.cons_append] at hfree ⊢
    refine ⟨hstray, hfree.2⟩
  · rw [List.cons_append, bareEnd, hstray, ha] at h
    simp at h

lemma stable_basic_of (hnext : Delimits next) {f : Bool}
    (h : Element esc (text ++ next :: w) (.atom .basic text) f rest) : StableBasic text next := by
  obtain ⟨hstop, -, -⟩ := hnext.plain
  have hb : next ≠ backslash := by
    rcases hnext with rfl | rfl | rfl <;> decide
  cases h with
  | @atom _ _ _ v _ c _ hgap hl hr hatom =>
    obtain ⟨hwhite, hsemi⟩ := skipGap_head _ hgap
    rcases nextAtom_cases hatom with ⟨-, r, -, heq, -⟩ | ⟨-, -, r, heq⟩ | ⟨hd, ht, r, hread, heq⟩
    · cases heq
    · cases heq
    · cases heq
      -- the first byte of the text is no gap byte, so the text starts the source
      have hhead : Headed (fun b => isWhite b = false ∧ b ≠ semicolon) text := by
        refine bareEnd_head ?_ ⟨c, [], rfl, hwhite, hsemi⟩ hread
        intro b hb
        refine ⟨?_, ?_⟩
        · cases hw : isWhite b with
          | false => rfl
          | true =>
            have hcases : b = newline ∨ b = space ∨ b = tab ∨ b = carriage := by
              simpa [isWhite, or_assoc] using hw
            rcases hcases with rfl | rfl | rfl | rfl <;> exact absurd hb (by decide)
        · rintro rfl
          exact absurd hb (by decide)
      obtain ⟨b, u, rfl, hbw, hbs⟩ := hhead
      have hskip : skipGap (b :: u ++ next :: w) = b :: u ++ next :: w := by
        rw [List.cons_append, skipGap, hbw, if_neg Bool.false_ne_true, if_neg hbs]
      rw [hskip, List.cons_append] at hgap
      obtain ⟨rfl, rfl⟩ := List.cons.inj hgap
      have hflag : Flagged (b == backslash) [b] := @flagged_push [] b
      obtain ⟨p, k, hsource, hlen, hcount, f, t, hrest, hf, hclean⟩ :=
        bareEnd_count hflag hread
      obtain ⟨hk, hp, hnextrest⟩ := source_eq (k := k) hsource
        (by simp only [List.length_cons, List.length_nil] at hlen; omega)
        (by rw [List.count_cons, List.count_cons, List.count_nil] at hcount; omega) hb
      obtain ⟨hatom, hfree⟩ := hclean hk
      rw [hrest] at hnextrest
      rw [hp, (List.cons.inj hnextrest).1] at hfree
      exact ⟨b, u, rfl, ⟨hwhite, hsemi, hl, hr, hd, ht⟩, hp ▸ hatom, hfree⟩

lemma stable_dquote_of (h : quotedEnd esc [] (escapeText text ++ dquote :: w) = some (r, rest)) :
    StableDquote esc text := by
  rintro rfl
  cases text with
  | nil => exact absurd (quotedEnd_stray h) (by decide)
  | cons b u =>
    refine ⟨b, u, rfl, ?_⟩
    rw [escapeText] at h
    split_ifs at h with hb
    · exact absurd (quotedEnd_stray h) (by decide)
    · simpa using quotedEnd_stray h

/-- A quoted string whose source is its text. A flag that is still set would drop the quote. -/
lemma quotedEnd_self (hnext : Delimits next)
    (h : quotedEnd esc [dquote] (u ++ next :: w) = some (r, rest)) (hr : r ++ [dquote] = dquote :: u) :
    ∃ v, u = v ++ [dquote] ∧ dquote ∉ v ∧ Unescaped esc u := by
  have hb : next ≠ backslash ∧ next ≠ dquote := by
    rcases hnext with rfl | rfl | rfl <;> decide
  have hlength : r.length = u.length := by simpa using congrArg List.length hr
  have hcounts : r.count backslash = u.count backslash := by
    simpa [show dquote ≠ backslash by decide] using congrArg (List.count backslash) hr
  obtain ⟨b, t, hsplit⟩ : ∃ b t, u ++ next :: w = b :: t :=
    List.exists_cons_of_ne_nil (by simp)
  by_cases he : (esc && isEscapable b) = true
  · exfalso
    rw [hsplit, quotedEnd, if_pos he, if_neg (List.cons_ne_nil _ _)] at h
    have hhead : Headed (fun _ => True) r := quotedEnd_head (fun _ _ => trivial) ⟨b, [], rfl, trivial⟩ h
    have hpos : r.length ≠ 0 := by
      obtain ⟨b', r', rfl, -⟩ := hhead
      simp
    cases u with
    | nil => exact hpos hlength
    | cons b₁ u =>
      obtain ⟨rfl, rfl⟩ := List.cons.inj hsplit
      obtain ⟨p, k, hsource, hlen, hcount, -⟩ := quotedEnd_count flagged_false h
      simp only [List.dropLast_singleton, List.nil_append, List.length_cons, List.length_nil,
        List.count_cons, List.count_nil] at hlen hcount hlength hcounts
      obtain ⟨-, -, hrest⟩ := source_eq (k := k) hsource (by omega) (by omega) hb.1
      exact hb.2 (List.cons.inj hrest).1.symm
  · have hclear : quotedEnd false [dquote] (u ++ next :: w) = some (r, rest) := by
      cases esc with
      | false => exact h
      | true =>
        rw [hsplit] at h ⊢
        rwa [quotedEnd_flag (by simpa using he)] at h
    obtain ⟨p, k, hsource, hlen, hcount, hclean⟩ := quotedEnd_count flagged_false hclear
    have hsource' : u ++ next :: w = (p ++ [dquote]) ++ rest := by simpa using hsource
    simp only [List.length_cons, List.length_nil, List.count_cons, List.count_nil] at hlen hcount
    obtain ⟨hk, hp, -⟩ := source_eq (k := k) hsource'
      (by rw [List.length_append, List.length_singleton]; omega)
      (by simp [show dquote ≠ backslash by decide] at hcount ⊢; omega) hb.1
    obtain ⟨hquote, hfree⟩ := hclean hk
    refine ⟨p, hp.symm, hquote, ?_⟩
    subst hp
    cases p with
    | nil =>
      obtain ⟨rfl, -⟩ := List.cons.inj hsplit
      exact ⟨by simpa using he, trivial⟩
    | cons d p =>
      obtain ⟨rfl, -⟩ := List.cons.inj hsplit
      exact ⟨by simpa using he, hfree.2⟩

lemma stable_squote_of (hnext : Delimits next) {f : Bool}
    (h : nextTick esc (text ++ next :: w) = some (.atom .squote text, f, rest)) :
    StableSquote esc text next := by
  obtain ⟨hstop, hq, hl⟩ := hnext.plain
  have hb : next ≠ backslash := by
    rcases hnext with rfl | rfl | rfl <;> decide
  cases text with
  | nil =>
    rw [List.nil_append, nextTick, if_neg hq, if_neg hl] at h
    obtain ⟨⟨r, f', rest'⟩, hread, -⟩ := Option.map_eq_some_iff.mp h
    exact bareEnd_stray hread
  | cons b u =>
    unfold StableSquote
    rw [List.cons_append, nextTick] at h
    dsimp only
    split_ifs at h ⊢
    · subst b
      obtain ⟨⟨r, rest'⟩, hread, heq⟩ := Option.map_eq_some_iff.mp h
      simp only [Prod.mk.injEq, Tree.atom.injEq, true_and] at heq
      exact quotedEnd_self hnext hread heq.1
    · obtain ⟨⟨r, rest'⟩, hread, heq⟩ := Option.map_eq_some_iff.mp h
      cases heq
      obtain ⟨p, -, hp, hall⟩ := listEnd_source hread
      rw [List.nil_append] at hp
      subst hp
      have hself := hall []
      rwa [List.append_nil] at hself
    · obtain ⟨⟨r, f', rest'⟩, hread, heq⟩ := Option.map_eq_some_iff.mp h
      cases heq
      rw [← List.cons_append] at hread
      exact bareEnd_self (List.cons_ne_nil b u) hb hread

lemma skipGap_solid (hw : isWhite c = false) (hs : c ≠ semicolon) : skipGap (c :: w) = c :: w := by
  rw [skipGap, hw, if_neg Bool.false_ne_true, if_neg hs]

lemma basic_of_stable (hnext : Delimits next) (h : StableBasic text next) :
    Element esc (text ++ next :: w) (.atom .basic text) (flagAfter esc text) (next :: w) := by
  obtain ⟨c, u, rfl, ⟨hwhite, hsemi, hl, hr, hd, ht⟩, hatom, hfree⟩ := h
  have hrun := @bareEnd_run u w [c] next (c == backslash) hatom hnext.plain.1 hfree
  rw [List.cons_append]
  refine .atom (skipGap_solid hwhite hsemi) hl hr ?_
  rw [nextAtom, if_neg hd, if_neg ht, hrun]
  rfl

lemma dquote_of_stable (h : StableDquote esc text) :
    Element esc (renderAtom .dquote text ++ w) (.atom .dquote text) false w := by
  have hread : quotedEnd esc [] (escapeText text ++ dquote :: w) = some (text, w) := by
    cases esc with
    | false => exact quotedEnd_escapeText
    | true =>
      obtain ⟨c, u, rfl, hc⟩ := h rfl
      have hplain : ¬ (c = dquote ∨ c = backslash) := by
        rintro (rfl | rfl) <;> exact absurd hc (by decide)
      have hclear := @quotedEnd_escapeText (c :: u) w []
      rw [escapeText, if_neg hplain] at hclear ⊢
      rw [List.cons_append, quotedEnd_flag hc]
      exact hclear
  rw [renderAtom, List.append_assoc, List.cons_append, List.singleton_append]
  refine .atom (skipGap_solid (by decide) (by decide)) (by decide) (by decide) ?_
  rw [nextAtom, if_pos rfl, hread]
  rfl

lemma tick_of_stable (hnext : Delimits next) (h : StableSquote esc text next) :
    nextTick esc (text ++ next :: w) =
      some (.atom .squote text, flagAfter esc text, next :: w) := by
  obtain ⟨hstop, hq, hl⟩ := hnext.plain
  cases text with
  | nil =>
    have hrun := @bareEnd_run [] w [] next esc (by simp) hstop ⟨h, trivial⟩
    rw [List.nil_append] at hrun ⊢
    rw [nextTick, if_neg hq, if_neg hl, hrun]
    rfl
  | cons b u =>
    unfold StableSquote at h
    rw [List.cons_append, nextTick]
    dsimp only at h
    split_ifs at h ⊢ with hb hb'
    · obtain ⟨v, rfl, hv, hfree⟩ := h
      have hrun := @quotedEnd_run v (next :: w) [dquote] esc hv hfree
      have hflag : flagAfter esc (b :: (v ++ [dquote])) = false := flagAfter_concat
      rw [List.append_assoc, List.singleton_append, hrun, hflag, hb]
      rfl
    · obtain ⟨p, hp, -, hall⟩ := listEnd_source h
      obtain ⟨t, ht⟩ := listEnd_last h
      have hself := hall (next :: w)
      have hflag : flagAfter esc (b :: u) = false := by
        rw [ht]
        exact flagAfter_concat
      rw [List.append_nil] at hp
      rw [← hp, List.cons_append] at hself
      rw [hself, hflag]
      rfl
    · have hrun := @bareEnd_run (b :: u) w [] next esc h.1 hstop h.2
      rw [List.cons_append] at hrun
      rw [hrun]
      rfl

/-- A stable atom is read back, ... -/
lemma atom_of_stable (hnext : Delimits next) {aty : AtomT} (h : StableAtom esc aty text next) :
    Element esc (renderAtom aty text ++ next :: w) (.atom aty text)
      (flagOf esc (.atom aty text)) (next :: w) := by
  cases aty with
  | basic => exact basic_of_stable hnext h
  | dquote => exact dquote_of_stable h
  | squote =>
    rw [renderAtom, List.cons_append]
    refine .atom (skipGap_solid (by decide) (by decide)) (by decide) (by decide) ?_
    rw [nextAtom, if_neg (by decide), if_pos rfl]
    exact tick_of_stable hnext h
  | binary => exact absurd h id

/-- ... and only a stable one. -/
lemma stable_of_atom (hnext : Delimits next) {aty : AtomT} {f : Bool}
    (h : Element esc (renderAtom aty text ++ next :: w) (.atom aty text) f rest) :
    StableAtom esc aty text next := by
  cases aty with
  | basic => exact stable_basic_of hnext h
  | dquote =>
    cases h with
    | atom hgap hl hr hatom =>
      rw [renderAtom, List.append_assoc, List.cons_append, List.singleton_append,
        skipGap_solid (by decide) (by decide)] at hgap
      obtain ⟨rfl, rfl⟩ := List.cons.inj hgap
      rw [nextAtom, if_pos rfl] at hatom
      obtain ⟨⟨r, rest'⟩, hread, heq⟩ := Option.map_eq_some_iff.mp hatom
      exact stable_dquote_of hread
  | squote =>
    cases h with
    | atom hgap hl hr hatom =>
      rw [renderAtom, List.cons_append, skipGap_solid (by decide) (by decide)] at hgap
      obtain ⟨rfl, rfl⟩ := List.cons.inj hgap
      rw [nextAtom, if_neg (by decide), if_pos rfl] at hatom
      exact stable_squote_of hnext hatom
  | binary =>
    cases h with
    | atom hgap hl hr hatom =>
      rcases nextAtom_cases hatom with ⟨-, r, -, heq, -⟩ | ⟨-, -, r, heq⟩ | ⟨-, -, r, -, heq⟩ <;>
        cases heq

end Atoms

section Trees

variable {esc e : Bool} {v w rest : List Byte} {x : Tree} {T : List Tree}

lemma element_gap (hgap : skipGap v = skipGap w) (h : Element esc w x e rest) :
    Element esc v x e rest := by
  cases h with
  | atom hskip hl hr hatom => exact .atom (hgap.trans hskip) hl hr hatom
  | list hskip hall => exact .list (hgap.trans hskip) hall

lemma elements_gap (hgap : skipGap v = skipGap w) (h : Elements esc w T e rest) :
    Elements esc v T e rest := by
  cases h with
  | nil hskip => exact .nil (hgap.trans hskip)
  | cons hone hall => exact .cons (element_gap hgap hone) hall

lemma skipGap_space : skipGap (space :: w) = skipGap w := by
  rw [skipGap, if_pos (by decide)]

mutual
/-- The rendering of a stable expression is read as that expression, ... -/
lemma element_of_stable (x : Tree) {esc : Bool} {c : Byte} (hc : Delimits c) (h : Stable esc x c)
    (w : List Byte) : Element esc (x.render ++ c :: w) x (flagOf esc x) (c :: w) := by
  match x with
  | .atom aty text => exact atom_of_stable hc h
  | .binary data => exact absurd h id
  | .list elems =>
    have hall := elements_of_stable elems h (c :: w)
    rw [Tree.render, List.append_assoc, List.singleton_append, List.cons_append]
    exact .list (skipGap_solid (by decide) (by decide)) hall

lemma elements_of_stable (xs : List Tree) {esc : Bool} (h : StableAll esc xs) (w : List Byte) :
    Elements esc (renderAll xs ++ rparen :: w) xs (flagOfAll esc xs) w := by
  match xs with
  | [] => exact .nil (skipGap_solid (by decide) (by decide))
  | [x] =>
    have hlast := element_of_stable x (.inr (.inr rfl)) h.1 w
    simp only [renderAll, separator, List.append_nil]
    exact .cons hlast (.nil (skipGap_solid (by decide) (by decide)))
  | x :: y :: xs =>
    have hfirst := element_of_stable x (.inl rfl) h.1 (renderAll (y :: xs) ++ rparen :: w)
    have hrest := elements_of_stable (y :: xs) h.2 w
    rw [renderAll, separator, List.append_assoc, List.append_assoc, List.singleton_append]
    exact .cons hfirst (elements_gap skipGap_space hrest)
end

mutual
/-- ... and no other is. -/
lemma stable_of_element (x : Tree) {esc e : Bool} {c : Byte} {w rest : List Byte} (hc : Delimits c)
    (h : Element esc (x.render ++ c :: w) x e rest) : Stable esc x c := by
  match x with
  | .atom aty text => exact stable_of_atom hc h
  | .binary data =>
    cases h with
    | atom hgap hl hr hatom =>
      rcases nextAtom_cases hatom with ⟨-, r, -, heq, -⟩ | ⟨-, -, r, heq⟩ | ⟨-, -, r, -, heq⟩ <;>
        cases heq
  | .list elems =>
    rw [Tree.render, List.append_assoc, List.singleton_append, List.cons_append] at h
    cases h with
    | atom hgap hl hr hatom =>
      rcases nextAtom_cases hatom with ⟨-, r, -, heq, -⟩ | ⟨-, -, r, heq⟩ | ⟨-, -, r, -, heq⟩ <;>
        cases heq
    | list hgap hall =>
      rw [skipGap_solid (by decide) (by decide)] at hgap
      obtain ⟨-, rfl⟩ := List.cons.inj hgap
      exact stable_of_elements elems hall

lemma stable_of_elements (xs : List Tree) {esc e : Bool} {w rest : List Byte}
    (h : Elements esc (renderAll xs ++ rparen :: w) xs e rest) : StableAll esc xs := by
  match xs with
  | [] => trivial
  | [x] =>
    simp only [renderAll, separator, List.append_nil] at h
    cases h with
    | cons hone hall => exact ⟨stable_of_element x (.inr (.inr rfl)) hone, trivial⟩
  | x :: y :: xs =>
    rw [renderAll, separator, List.append_assoc, List.append_assoc, List.singleton_append] at h
    cases h with
    | cons hone hall =>
      have hfirst : Stable esc x space := stable_of_element x (.inl rfl) hone
      -- the first element leaves the space unread
      obtain ⟨-, rfl, rfl⟩ := element_unique hone (element_of_stable x (.inl rfl) hfirst _)
      exact ⟨hfirst, stable_of_elements (y :: xs) (elements_gap skipGap_space.symm hall)⟩
end

end Trees

end Sfsexp.Proofs
