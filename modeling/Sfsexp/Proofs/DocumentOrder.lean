import Sfsexp.Proofs.FreshNodes
import Sfsexp.Proofs.Search

/-!
# `find_sexp` and the first occurrence

The depth-first search meets the atoms in the order of the text, so that what it finds is the first
occurrence of the name.
-/

namespace Sfsexp.Proofs

open Sfsexp Spec

variable {name : List Byte}

/-- `strcmp` compares two strings up to their NULs. -/
lemma sameString_eq {cs ds : List Byte} (hcs : nul ∈ cs) (hds : nul ∈ ds) :
    sameString cs ds = .ok (cstr cs == cstr ds) := by
  induction cs generalizing ds with
  | nil => cases hcs
  | cons c cs ih =>
    cases ds with
    | nil => cases hds
    | cons d ds =>
      rw [sameString]
      by_cases hcd : c = d
      · subst hcd
        rw [if_pos rfl]
        by_cases hc : c = nul
        · rw [if_pos hc]
          simp [cstr, hc]
        · rw [if_neg hc, ih ((List.mem_cons.mp hcs).resolve_left fun h => hc h.symm)
            ((List.mem_cons.mp hds).resolve_left fun h => hc h.symm)]
          simp [cstr, hc]
      · rw [if_neg hcd]
        by_cases hc : c = nul
        · have hd : d ≠ nul := fun hd => hcd (hc.trans hd.symm)
          simp [cstr, hc, hd]
        · by_cases hd : d = nul
          · simp [cstr, hc, hd]
          · simp [cstr, hc, hd, hcd]

/-- An element that is no list holds the name itself or not at all. -/
lemma firstFound_leaf {x : Sexp} (hx : ∀ elems, x ≠ .list elems) :
    FirstFound name x (if valIs name x then some [] else none) := by
  split_ifs with hval
  · refine ⟨occurs_self.mpr hval, fun q _ => ?_⟩
    cases q with
    | nil => exact le_refl _
    | cons i q => exact le_of_lt List.Lex.nil
  · intro q hq
    cases q with
    | nil => exact hval (occurs_self.mp hq)
    | cons i q =>
      obtain ⟨elems, helems⟩ := list_of_occurs hq
      exact hx elems helems

/-- An occurrence in the first element comes before those in the others. -/
lemma firstFound_head {x : Sexp} {xs : List Sexp} {p : Position} (h : FirstFound name x (some p)) :
    FirstFound name (.list (x :: xs)) (some (0 :: p)) := by
  refine ⟨occurs_head.mpr h.1, fun q hq => ?_⟩
  rcases q with _ | ⟨_ | i, q⟩
  · exact absurd hq not_occurs_self
  · exact cons_le_position.mpr (.inr ⟨rfl, h.2 q (occurs_head.mp hq)⟩)
  · exact cons_le_position.mpr (.inl (Nat.succ_pos i))

lemma firstFound_tail {x : Sexp} {xs : List Sexp} {o : Option Position}
    (hx : FirstFound name x none) (h : FirstFound name (.list xs) o) :
    FirstFound name (.list (x :: xs)) (o.map bump) := by
  rcases o with _ | _ | ⟨j, p⟩
  · intro q hq
    rcases q with _ | ⟨_ | i, q⟩
    · exact not_occurs_self hq
    · exact hx q (occurs_head.mp hq)
    · exact h (i :: q) (occurs_tail.mp hq)
  · exact absurd h.1 not_occurs_self
  · refine ⟨occurs_tail.mpr h.1, fun q hq => ?_⟩
    rcases q with _ | ⟨_ | i, q⟩
    · exact absurd hq not_occurs_self
    · exact absurd (occurs_head.mp hq) (hx q)
    · have hle := h.2 (i :: q) (occurs_tail.mp hq)
      rw [cons_le_position] at hle
      exact cons_le_position.mpr (hle.imp Nat.succ_lt_succ (And.imp_left (congrArg (· + 1))))

mutual
/-- The search in one element. -/
lemma findElement_first (hname : nul ∈ name) (x : Sexp) (h : Leaves ParsedAtom x)
    (hblob : Leaves NotBlob x) (addr : Position → Nat) (junk : Position → NodeFields) :
    ∃ o, Nodes.findElement name (buildNode addr junk x) = .ok o ∧ FirstFound name x o := by
  cases x with
  | value aty val valAllocated valUsed =>
    refine ⟨_, ?_, firstFound_leaf (by simp)⟩
    rw [buildNode, Nodes.findElement]
    dsimp only [textNode, NodeFields.named]
    rw [sameString_eq h.2.1 hname]
    simp [valIs, Except.map, List.ne_nil_of_mem h.2.1]
  | blob bindata binlength => exact hblob.elim
  | list elems => exact findSexp_first hname elems h hblob addr junk

/-- The search in a chain. -/
lemma findSexp_first (hname : nul ∈ name) (xs : List Sexp) (h : LeavesAll ParsedAtom xs)
    (hblob : LeavesAll NotBlob xs) (addr : Position → Nat) (junk : Position → NodeFields) :
    ∃ o, Nodes.findSexp name (buildNodes addr junk xs) = .ok o ∧ FirstFound name (.list xs) o := by
  cases xs with
  | nil => exact ⟨none, rfl, fun q => occurs_nil⟩
  | cons x xs =>
    obtain ⟨o, hhead, hfirst⟩ := findElement_first hname x h.1 hblob.1 (fun p => addr (0 :: p))
      fun p => junk (0 :: p)
    rw [buildNodes, Nodes.findSexp, hhead]
    cases o with
    | some p => exact ⟨_, rfl, firstFound_head hfirst⟩
    | none =>
      obtain ⟨o, htail, hrest⟩ := findSexp_first hname xs h.2 hblob.2 (fun p => addr (bump p))
        fun p => junk (bump p)
      rw [htail]
      exact ⟨_, rfl, firstFound_tail hfirst hrest⟩
end

/-- In a tree of the parser without binary atoms `find_sexp` finds the first occurrence of the name in
the order of the text, whatever the nodes held before. -/
theorem find_sexp_first {cc : Pcont} (h : Session ParserCall cc)
    (hblob : LeavesAll NotBlob cc.lastSexp) (hname : nul ∈ name) (addr : Position → Nat)
    (junk : Position → NodeFields) :
    ∃ o, Nodes.findSexp name (buildNodes addr junk cc.lastSexp) = .ok o ∧
      FirstFound name (.list cc.lastSexp) o :=
  findSexp_first hname cc.lastSexp (parsedAtoms_of_session h).result hblob addr junk

/-- `b` in the tree of `((b) b)`. -/
theorem find_sexp_first_inner :
    ∃ r, (cparseSexp .plain (some [lparen, lparen, 98, rparen, space, 98, rparen, nul]) 7 none
        .ok).returnOf = some r ∧
      r.cc.lastSexp ≠ [] ∧
      ∃ o, Nodes.findSexp [98, nul] (buildNodes (fun _ => 0)
          (fun _ => ⟨.value, none, 0, 0, .basic, none, 0⟩) r.cc.lastSexp) = .ok o ∧
        FirstFound [98, nul] (.list r.cc.lastSexp) o := by
  have hrun : (cparseSexp .plain (some [lparen, lparen, 98, rparen, space, 98, rparen, nul]) 7 none
      .ok).returnOf.map
      (fun r => (r.cc.lastSexp.length, Nodes.findSexp [122, nul] (buildNodes (fun _ => 0)
        (fun _ => ⟨.value, some ⟨0, [122, nul]⟩, 0, 0, .basic, none, 0⟩) r.cc.lastSexp))) =
        some (1, .ok none) := by
    decide +kernel
  have hmode : ∀ l ∈ Loop.heads
      (cparseHead ⟨.plain, [lparen, lparen, 98, rparen, space, 98, rparen, nul], 7⟩)
      (fuel ⟨.plain, [lparen, lparen, 98, rparen, space, 98, rparen, nul], 7⟩)
      ((Pcont.new .plain).enter 3),
      l.mode ≠ .eventsOnly := by
    decide +kernel
  obtain ⟨r, hret, hpair⟩ := Option.map_eq_some_iff.mp hrun
  obtain ⟨hlength, hnone⟩ := Prod.mk.inj hpair
  have hblob : LeavesAll NotBlob r.cc.lastSexp :=
    notBlob_of_findSexp (by decide) _ _ _ (fun _ => rfl) hnone
  refine ⟨r, hret, List.ne_nil_of_length_pos (by omega), find_sexp_first
    (session_of_run (fun _ => rfl) hret fun l hl => ⟨fun _ => rfl, hmode l hl⟩) hblob (by decide) _ _⟩

end Sfsexp.Proofs
