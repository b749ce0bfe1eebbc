import Sfsexp.Proofs.Content
import Sfsexp.Proofs.NodePrinting
import Sfsexp.Proofs.PlainSessions
import Sfsexp.Proofs.QuotedRest

/-!
# What a fresh node held does not show

Of a tree without binary atoms nothing that the library computes depends on what the nodes held before
the parser built the elements in them. A binary atom leaves `val` as it was, which the searches read.
-/

namespace Sfsexp.Proofs

open Sfsexp Spec

/-- A text atom as the parser builds it: the buffer holds a C string, and a byte of it is counted. -/
def ParsedAtom : Sexp → Prop
  | .value aty val _ valUsed => aty ≠ .binary ∧ nul ∈ val ∧ 0 < valUsed
  | _ => True

def NotBlob : Sexp → Prop
  | .blob _ _ => False
  | _ => True

section Built

variable {addr : Position → Nat} {junk : Position → NodeFields}

mutual
/-- The node behind an element stands for it. -/
lemma element_buildNode (x : Sexp) (h : Leaves ParsedAtom x) (addr : Position → Nat)
    (junk : Position → NodeFields) :
    element (buildNode addr junk x) = x ∧ Backed (buildNode addr junk x) := by
  cases x with
  | value aty val valAllocated valUsed =>
    obtain ⟨haty, hnul, hused⟩ := h
    rw [buildNode]
    refine ⟨element_text rfl haty, (backed_value rfl).mpr fun _ => ⟨?_, hused⟩⟩
    exact List.ne_nil_of_mem hnul
  | blob bindata binlength =>
    rw [buildNode]
    refine ⟨(element_blob rfl rfl).trans ?_, (backed_value rfl).mpr fun h => absurd rfl h⟩
    cases bindata with
    | none => rfl
    | some data => rfl
  | list elems =>
    obtain ⟨helems, hbacked⟩ := elements_buildNodes elems h addr junk
    rw [buildNode]
    exact ⟨(element_list rfl).trans (congrArg Sexp.list helems), (backed_list rfl).mpr hbacked⟩

lemma elements_buildNodes (xs : List Sexp) (h : LeavesAll ParsedAtom xs) (addr : Position → Nat)
    (junk : Position → NodeFields) :
    elements (buildNodes addr junk xs) = xs ∧ BackedAll (buildNodes addr junk xs) := by
  cases xs with
  | nil => exact ⟨rfl, trivial⟩
  | cons x xs =>
    obtain ⟨helement, hbacked⟩ := element_buildNode x h.1 (fun p => addr (0 :: p))
      fun p => junk (0 :: p)
    obtain ⟨helements, hall⟩ := elements_buildNodes xs h.2 (fun p => addr (bump p))
      fun p => junk (bump p)
    rw [buildNodes, elements, helement, helements]
    exact ⟨rfl, hbacked, hall⟩
end

end Built

section Searches

variable {name : List Byte}

mutual
/-- `find_sexp` reads what the parser wrote. -/
lemma findElement_buildNode (x : Sexp) (h : Leaves NotBlob x) (addr : Position → Nat)
    (junk junk' : Position → NodeFields) :
    Nodes.findElement name (buildNode addr junk x) =
      Nodes.findElement name (buildNode addr junk' x) := by
  cases x with
  | value aty val valAllocated valUsed => rfl
  | blob bindata binlength => exact h.elim
  | list elems => exact findSexp_buildNodes elems h addr junk junk'

lemma findSexp_buildNodes (xs : List Sexp) (h : LeavesAll NotBlob xs) (addr : Position → Nat)
    (junk junk' : Position → NodeFields) :
    Nodes.findSexp name (buildNodes addr junk xs) =
      Nodes.findSexp name (buildNodes addr junk' xs) := by
  cases xs with
  | nil => rfl
  | cons x xs =>
    rw [buildNodes, buildNodes, Nodes.findSexp, Nodes.findSexp,
      findElement_buildNode x h.1 _ (fun p => junk (0 :: p)) fun p => junk' (0 :: p),
      findSexp_buildNodes xs h.2 _ (fun p => junk (bump p)) fun p => junk' (bump p)]
end

lemma firstNamed_buildNodes (xs : List Sexp) (h : LeavesAll NotBlob xs) (addr : Position → Nat)
    (junk junk' : Position → NodeFields) :
    Nodes.firstNamed name (buildNodes addr junk xs) =
      Nodes.firstNamed name (buildNodes addr junk' xs) := by
  induction xs generalizing addr junk junk' with
  | nil => rfl
  | cons x xs ih =>
    have hrest := ih h.2 (fun p => addr (bump p)) (fun p => junk (bump p)) fun p => junk' (bump p)
    cases x with
    | value aty val valAllocated valUsed =>
      rw [buildNodes, buildNodes, buildNode, buildNode, Nodes.firstNamed, Nodes.firstNamed, hrest]
      rfl
    | blob bindata binlength => exact h.1.elim
    | list elems =>
      rw [buildNodes, buildNodes, buildNode, buildNode, Nodes.firstNamed, Nodes.firstNamed, hrest]
      rfl

mutual
/-- `bfs_find_sexp` reads what the parser wrote. -/
lemma bfsChildren_buildNode (x : Sexp) (h : Leaves NotBlob x) (addr : Position → Nat)
    (junk junk' : Position → NodeFields) :
    Nodes.bfsChildren name (buildNode addr junk x) =
      Nodes.bfsChildren name (buildNode addr junk' x) := by
  cases x with
  | value aty val valAllocated valUsed => rfl
  | blob bindata binlength => rfl
  | list elems =>
    have hlists := bfsLists_buildNodes elems h addr junk junk'
    rw [buildNode, buildNode, Nodes.bfsChildren, Nodes.bfsChildren,
      firstNamed_buildNodes elems h addr junk junk', hlists]
    rfl

lemma bfsLists_buildNodes (xs : List Sexp) (h : LeavesAll NotBlob xs) (addr : Position → Nat)
    (junk junk' : Position → NodeFields) :
    Nodes.bfsLists name (buildNodes addr junk xs) =
      Nodes.bfsLists name (buildNodes addr junk' xs) := by
  cases xs with
  | nil => rfl
  | cons x xs =>
    rw [buildNodes, buildNodes, Nodes.bfsLists, Nodes.bfsLists,
      bfsChildren_buildNode x h.1 _ (fun p => junk (0 :: p)) fun p => junk' (0 :: p),
      bfsLists_buildNodes xs h.2 _ (fun p => junk (bump p)) fun p => junk' (bump p)]
end

lemma bfsFindSexp_buildNodes (xs : List Sexp) (h : LeavesAll NotBlob xs) (addr : Position → Nat)
    (junk junk' : Position → NodeFields) :
    Nodes.bfsFindSexp name (buildNodes addr junk xs) =
      Nodes.bfsFindSexp name (buildNodes addr junk' xs) := by
  rw [Nodes.bfsFindSexp, Nodes.bfsFindSexp, firstNamed_buildNodes xs h addr junk junk',
    bfsLists_buildNodes xs h addr junk junk']

end Searches

mutual
/-- `destroy_sexp` frees the blocks that the parser gave to a tree, unless a binary atom is empty. -/
lemma destroyElement_buildNode (x : Sexp) (h : Leaves ParsedAtom x) (hdata : HasData x)
    (addr : Position → Nat) (junk : Position → NodeFields) :
    Nodes.destroyElement (buildNode addr junk x) = parserBlocks addr x := by
  cases x with
  | value aty val valAllocated valUsed =>
    rw [buildNode, Nodes.destroyElement]
    dsimp only [textNode]
    rw [Nodes.ownFrees, if_neg h.1]
    rfl
  | blob bindata binlength =>
    cases bindata with
    | none => exact absurd rfl hdata
    | some data => rfl
  | list elems => exact destroySexp_buildNodes elems h hdata addr junk

lemma destroySexp_buildNodes (xs : List Sexp) (h : LeavesAll ParsedAtom xs) (hdata : HasDataAll xs)
    (addr : Position → Nat) (junk : Position → NodeFields) :
    Nodes.destroySexp (buildNodes addr junk xs) = parserBlocksAll addr xs := by
  cases xs with
  | nil => rfl
  | cons x xs =>
    rw [buildNodes, Nodes.destroySexp, parserBlocksAll,
      destroyElement_buildNode x h.1 hdata.1 _ fun p => junk (0 :: p),
      destroySexp_buildNodes xs h.2 hdata.2 _ fun p => junk (bump p)]
end

mutual
lemma hasData_of_notBlob (x : Sexp) (h : Leaves NotBlob x) : HasData x := by
  cases x with
  | value aty val valAllocated valUsed => trivial
  | blob bindata binlength => exact h.elim
  | list elems => exact hasDataAll_of_notBlob elems h

lemma hasDataAll_of_notBlob (xs : List Sexp) (h : LeavesAll NotBlob xs) : HasDataAll xs := by
  cases xs with
  | nil => trivial
  | cons x xs => exact ⟨hasData_of_notBlob x h.1, hasDataAll_of_notBlob xs h.2⟩
end

/-- Without binary atoms nothing depends on what the nodes held. -/
lemma junkInvisible_of_notBlob {t : List Sexp} (h : LeavesAll ParsedAtom t)
    (hblob : LeavesAll NotBlob t) : JunkInvisible t := by
  have helements : ∀ addr junk, elements (buildNodes addr junk t) = t := fun addr junk =>
    (elements_buildNodes t h addr junk).1
  have hbacked : ∀ addr junk, BackedAll (buildNodes addr junk t) := fun addr junk =>
    (elements_buildNodes t h addr junk).2
  have hdestroy : ∀ addr junk, Nodes.destroySexp (buildNodes addr junk t) = parserBlocksAll addr t :=
    fun addr junk => destroySexp_buildNodes t h (hasDataAll_of_notBlob t hblob) addr junk
  refine ⟨?_, ?_, ?_, ?_, ?_, ?_, ?_⟩
  · exact fun addr junk junk' name => findSexp_buildNodes t hblob addr junk junk'
  · exact fun addr junk junk' str => bfsFindSexp_buildNodes t hblob addr junk junk'
  · intro addr junk junk' g fresh fresh' n buf size errno
    rw [printSexp_elements (hbacked _ _), printSexp_elements (hbacked _ _), helements, helements]
  · intro addr junk junk' g fresh fresh' n s ss errno
    rw [printSexpCstr_elements (hbacked _ _), printSexpCstr_elements (hbacked _ _), helements,
      helements]
  · intro addr junk junk' g fresh fresh' h'
    rw [copySexp_elements _ (hbacked _ _), copySexp_elements _ (hbacked _ _), helements, helements]
  · intro addr junk junk'
    rw [hdestroy, hdestroy]
  · intro addr junk b hb
    rwa [hdestroy] at hb

mutual
/-- The cells of all texts of the element. -/
def textCells : Sexp → Nat
  | .value _ val _ _ => val.length
  | .blob _ _ => 0
  | .list elems => textCellsAll elems

def textCellsAll : List Sexp → Nat
  | [] => 0
  | x :: xs => textCells x + textCellsAll xs
end

/-- A name of `n + 1` letters. -/
def longName (n : Nat) : List Byte := List.replicate (n + 1) 97 ++ [nul]

section Names

variable {n : Nat} {junk : Position → NodeFields}

/-- A string in `n` cells is no name of more than `n` letters. -/
lemma sameString_longName {val : List Byte} (hnul : nul ∈ val) (hlen : val.length ≤ n) :
    sameString val (longName n) = .ok false := by
  induction val generalizing n with
  | nil => cases hnul
  | cons c cs ih =>
    obtain ⟨n, rfl⟩ : ∃ k, n = k + 1 := ⟨n - 1, by simp at hlen; omega⟩
    have hname : longName (n + 1) = 97 :: longName n := rfl
    rw [hname, sameString]
    by_cases hc : c = 97
    · subst hc
      have hrest : nul ∈ cs := by
        rcases List.mem_cons.mp hnul with h | h
        · exact absurd h (by decide)
        · exact h
      rw [if_pos rfl, if_neg (by decide)]
      exact ih hrest (by simpa using hlen)
    · rw [if_neg hc]

lemma sameString_self {name : List Byte} (h : nul ∈ name) : sameString name name = .ok true := by
  induction name with
  | nil => cases h
  | cons c cs ih =>
    rw [sameString, if_pos rfl]
    by_cases hc : c = nul
    · rw [if_pos hc]
    · rw [if_neg hc]
      exact ih ((List.mem_cons.mp h).resolve_left fun h => hc h.symm)

mutual
/-- Where the fresh nodes held `NULL`, no such name is found. -/
lemma findElement_null (x : Sexp) (h : Leaves ParsedAtom x) (hlen : textCells x ≤ n)
    (addr : Position → Nat) (junk : Position → NodeFields) (hnull : ∀ p, (junk p).val = none) :
    Nodes.findElement (longName n) (buildNode addr junk x) = .ok none := by
  cases x with
  | value aty val valAllocated valUsed =>
    rw [buildNode, Nodes.findElement]
    dsimp only [textNode, NodeFields.named]
    rw [sameString_longName h.2.1 hlen]
    rfl
  | blob bindata binlength =>
    rw [buildNode, Nodes.findElement]
    dsimp only [blobNode, NodeFields.named]
    rw [hnull]
    rfl
  | list elems => exact findSexp_null elems h hlen addr junk hnull

lemma findSexp_null (xs : List Sexp) (h : LeavesAll ParsedAtom xs) (hlen : textCellsAll xs ≤ n)
    (addr : Position → Nat) (junk : Position → NodeFields) (hnull : ∀ p, (junk p).val = none) :
    Nodes.findSexp (longName n) (buildNodes addr junk xs) = .ok none := by
  cases xs with
  | nil => rfl
  | cons x xs =>
    rw [textCellsAll] at hlen
    rw [buildNodes, Nodes.findSexp,
      findElement_null x h.1 (by omega) _ (fun p => junk (0 :: p)) fun p => hnull _,
      findSexp_null xs h.2 (by omega) _ (fun p => junk (bump p)) fun p => hnull _]
    rfl
end

mutual
/-- Where the fresh nodes held a pointer to the name, it is found unless there is no binary atom. -/
lemma notBlob_of_findElement {name : List Byte} (hname : nul ∈ name) (x : Sexp)
    (addr : Position → Nat) (junk : Position → NodeFields)
    (hval : ∀ p, (junk p).val = some ⟨0, name⟩)
    (h : Nodes.findElement name (buildNode addr junk x) = .ok none) : Leaves NotBlob x := by
  cases x with
  | value aty val valAllocated valUsed => trivial
  | blob bindata binlength =>
    rw [buildNode, Nodes.findElement] at h
    dsimp only [blobNode, NodeFields.named] at h
    rw [hval] at h
    dsimp only at h
    rw [sameString_self hname] at h
    cases h
  | list elems => exact notBlob_of_findSexp hname elems addr junk hval h

lemma notBlob_of_findSexp {name : List Byte} (hname : nul ∈ name) (xs : List Sexp)
    (addr : Position → Nat) (junk : Position → NodeFields)
    (hval : ∀ p, (junk p).val = some ⟨0, name⟩)
    (h : Nodes.findSexp name (buildNodes addr junk xs) = .ok none) : LeavesAll NotBlob xs := by
  cases xs with
  | nil => trivial
  | cons x xs =>
    rw [buildNodes, Nodes.findSexp] at h
    cases hfirst : Nodes.findElement name
        (buildNode (fun p => addr (0 :: p)) (fun p => junk (0 :: p)) x) with
    | error f =>
      rw [hfirst] at h
      cases h
    | ok o =>
      cases o with
      | some p =>
        rw [hfirst] at h
        cases h
      | none =>
        rw [hfirst] at h
        refine ⟨notBlob_of_findElement hname x (fun p => addr (0 :: p)) (fun p => junk (0 :: p))
          (fun p => hval _) hfirst, ?_⟩
        refine notBlob_of_findSexp hname xs (fun p => addr (bump p)) (fun p => junk (bump p))
          (fun p => hval _) ?_
        cases hrest : Nodes.findSexp name
            (buildNodes (fun p => addr (bump p)) (fun p => junk (bump p)) xs) with
        | error f =>
          rw [hrest] at h
          cases h
        | ok o =>
          cases o with
          | some p =>
            rw [hrest] at h
            cases h
          | none => rfl
end

/-- A field that the parser leaves alone in a binary atom shows in a search. -/
lemma notBlob_of_junkInvisible {t : List Sexp} (h : LeavesAll ParsedAtom t)
    (hjunk : JunkInvisible t) : LeavesAll NotBlob t := by
  let junk : Option Block → NodeFields := fun val => ⟨.value, val, 0, 0, .basic, none, 0⟩
  let name := longName (textCellsAll t)
  have hsame := hjunk.find (fun _ => 0) (fun _ => junk none) (fun _ => junk (some ⟨0, name⟩)) name
  have hnone := findSexp_null t h (le_refl _) (fun _ => 0) (fun _ => junk none) fun _ => rfl
  have hname : nul ∈ name := by simp [name, longName]
  exact notBlob_of_findSexp hname t (fun _ => 0) (fun _ => junk (some ⟨0, name⟩)) (fun _ => rfl)
    (hsame.symm.trans hnone)

end Names

/-- State 9 is left in the round that enters it. -/
abbrev NoClosing : Exec Locals → Prop :=
  Post (fun l => l.state ≠ .s9) (fun r => r.cc.state ≠ .s9) fun _ => True

section Rounds

variable {env : Env} {l : Locals} {c : Byte}

lemma Rests.noClosing {q : Int} {x : Exec Locals} (h : Rests q x) : NoClosing x := by
  have hout : ∀ {l : Regs}, AtRest q l → l.state ≠ .s9 := fun hr hs => by
    have hquotes := hr.outside
    rw [hs] at hquotes
    cases hquotes
  exact Post.mono h (fun _ h => hout h) fun _ h => hout h

lemma noClosing_state8 (h : env.Succeeds) : NoClosing (state8 env c l) := by
  rw [state8]
  refine (Post.mono (passes_storeEsc h) (fun _ h => h.1) fun _ h => h.elim).bind fun m _ => ?_
  by_cases h9 : m.state = .s9
  · rw [if_pos h9, state9]
    split_ifs
    · exact (rests_endQuotedList h rfl rfl).noClosing
    · simp [Post]
  · rw [if_neg h9]
    exact h9

lemma noClosing_state10 (h : env.Succeeds) (hs : l.state = .s10) : NoClosing (state10 env c l) := by
  rw [state10]
  refine (Post.mono (passes_storeEsc h) (fun _ h => h.1) fun _ h => h.elim).bind fun m hm => ?_
  have hstate := hm.state
  change m.state ≠ .s9
  rw [hstate]
  split_ifs <;> simp [hs]

lemma noClosing_state7 (h : env.Succeeds) : NoClosing (state7 env c l) := by
  rw [state7]
  split_ifs
  · refine (Post.mono (passes_store h) (fun _ h => h) fun _ h => h.elim).bind fun m hm => ?_
    change m.state ≠ .s9
    rw [hm.state]
    simp
  · simp [Post]
  · simp [Post]

lemma noClosing_finish (hs : l.state ≠ .s9) : NoClosing (.error (finish env l)) := by
  rw [finish]
  split_ifs
  · exact (rests_returnTree rfl).noClosing
  · split
    · trivial
    · exact hs

lemma noClosing_switch (h : env.Succeeds) (h9 : l.state ≠ .s9) : NoClosing (switch env c l) := by
  have hrest : quotes l.state = false → AtRest l.qdepth l.toRegs := fun hs => ⟨rfl, hs⟩
  rw [switch]
  cases hs : l.state with
  | s1 => exact (rests_state1 h (hrest (by rw [hs]; rfl))).noClosing
  | s2 => exact (rests_state2 h rfl).noClosing
  | s3 => exact (rests_state3 (hrest (by rw [hs]; rfl))).noClosing
  | s4 => exact (rests_state4 h (hrest (by rw [hs]; rfl))).noClosing
  | s5 => exact (rests_state5 h rfl hs).noClosing
  | s6 => simp [Post]
  | s7 => exact noClosing_state7 h
  | s8 => exact noClosing_state8 h
  | s9 => exact absurd hs h9
  | s10 => exact noClosing_state10 h hs
  | s11 => exact (rests_state11 rfl).noClosing
  | s12 => exact (rests_state12 h rfl).noClosing
  | s13 => exact (rests_state13 h rfl).noClosing
  | s14 => exact (rests_state14 h (hrest (by rw [hs]; rfl))).noClosing
  | s15 => exact (rests_state15 h (hrest (by rw [hs]; rfl))).noClosing
  | unknown => simp [Post, Locals.save, hs]

lemma noClosing_cparseHead (h : env.Succeeds) (h9 : l.state ≠ .s9) :
    NoClosing (cparseHead env l) := by
  rw [cparseHead]
  by_cases h15 : l.state = .s15
  · rw [if_pos h15]
    split_ifs
    · exact noClosing_finish h9
    · exact (rests_state15 (q := l.qdepth) h ⟨rfl, by rw [h15]; rfl⟩).noClosing
  · rw [if_neg h15, Env.read]
    split
    · rw [ok_bind]
      split_ifs
      · exact noClosing_finish h9
      · exact noClosing_switch h h9
    · trivial

lemma counts_storeEsc (h : env.Succeeds) :
    Post (fun l' => 0 < l'.valUsed) (fun _ => False) (fun _ => True) (storeEsc env c l) := by
  refine Post.bind passes_writeCur fun m _ => ?_
  rw [grow, if_pos (h _)]
  split_ifs <;> exact Nat.succ_pos _

/-- Every text that a round builds holds a NUL and counts a byte. -/
lemma parsedAtom_of_builds (h : env.Succeeds) (h9 : l.state ≠ .s9) {x : Sexp}
    (hx : Builds env c l x) : ParsedAtom x := by
  cases hx with
  | bare hs hlt =>
    refine ⟨?_, List.mem_set hlt _, Nat.succ_pos _⟩
    rw [bareType]
    split_ifs <;> simp
  | @quoted l₁ l₂ hs hpair hquote hlt =>
    refine ⟨?_, List.mem_set hlt _, Nat.succ_pos _⟩
    rw [quotedType]
    split_ifs <;> simp
  | @list l₁ hs hesc hc hstore hq hlt =>
    have hused := @counts_storeEsc env { l with qdepth := l.qdepth - 1, state := .s9 } c h
    rw [hstore] at hused
    exact ⟨by simp, List.mem_set hlt _, hused⟩
  | listEnd hs hq hlt => exact absurd hs h9
  | blob hs hread hend => trivial

end Rounds

section Sessions

variable {cc : Pcont} {k : Call} {allocs : Nat} {l : Locals}

/-- What the parser keeps of its atoms between two calls. -/
structure ParsedAtoms (cc : Pcont) : Prop where
  closing : cc.state ≠ .s9
  levels : ∀ T ∈ cc.stack.levels, LeavesAll ParsedAtom T
  result : LeavesAll ParsedAtom cc.lastSexp

lemma parsedAtom_stocks (h : k.setup.Succeeds) (h9 : l.state ≠ .s9)
    (hl : StockedHead ParsedAtom (fun _ => True) l) :
    Stocks ParsedAtom (fun _ => True) (cparseHead k.env l) := by
  apply stocks_cparseHead trivial trivial hl
  intro c _ x hx
  exact ⟨@parsedAtom_of_builds k.env _ _ h h9 _ hx, fun _ _ => trivial⟩

lemma parsedAtom_reaches {l₀ : Locals} (h9 : l₀.state ≠ .s9)
    (hl : StockedHead ParsedAtom (fun _ => True) l₀)
    (hrun : Loop.ReachesWhile (cparseHead k.env) (ParserCall k.env) l₀ l) :
    l.state ≠ .s9 ∧ StockedHead ParsedAtom (fun _ => True) l := by
  induction hrun with
  | refl => exact ⟨h9, hl⟩
  | @tail l₁ l₂ _ hstep ih =>
    obtain ⟨hcall, hnext⟩ := hstep
    have hclosing := @noClosing_cparseHead k.env l₁ hcall.1 ih.1
    have hstock := @parsedAtom_stocks k l₁ hcall.1 ih.1 ih.2
    rw [hnext] at hclosing hstock
    exact ⟨hclosing, hstock⟩

/-- In every sequence of calls that build trees, the atoms are as the parser builds them. -/
lemma parsedAtoms_of_session (h : Session ParserCall cc) : ParsedAtoms cc := by
  induction h with
  | @start g _ _ h =>
    rw [(initContinuation_eq_new h).1]
    exact ⟨by simp [Pcont.new], fun T hT => (by cases hT), trivial⟩
  | configure _ mode handlers ih => exact ⟨ih.closing, ih.levels, ih.result⟩
  | @call cc k allocs l r _ hrun hlast hret ih =>
    obtain ⟨-, hhead⟩ := head_of_parserCall hrun hlast
    rw [hhead] at hrun hret
    have hstart : StockedHead ParsedAtom (fun _ => True) (cc.enter allocs) :=
      ⟨ih.levels, trivial, fun _ _ => trivial⟩
    obtain ⟨h9, hstock⟩ := parsedAtom_reaches ih.closing hstart hrun
    have hclosing' := @noClosing_cparseHead k.env l hlast.1 h9
    have hstock' := @parsedAtom_stocks k l hlast.1 h9 hstock
    rw [hret] at hclosing' hstock'
    exact ⟨hclosing', hstock'.levels, hstock'.sx⟩

/-- What the library makes of a tree of the parser does not depend on what the fresh nodes held
exactly when the tree holds no binary atom. -/
theorem fresh_nodes_invisible (h : Session ParserCall cc) :
    JunkInvisible cc.lastSexp ↔ LeavesAll NotBlob cc.lastSexp := by
  have hatoms := (parsedAtoms_of_session h).result
  exact ⟨notBlob_of_junkInvisible hatoms, junkInvisible_of_notBlob hatoms⟩

/-- The tree of `(a)`. -/
theorem fresh_nodes_invisible_list :
    ∃ r, (cparseSexp .plain (some [lparen, 97, rparen, nul]) 3 none .ok).returnOf = some r ∧
      r.cc.lastSexp ≠ [] ∧ (JunkInvisible r.cc.lastSexp ↔ LeavesAll NotBlob r.cc.lastSexp) := by
  have hrun : (cparseSexp .plain (some [lparen, 97, rparen, nul]) 3 none .ok).returnOf.map
      (fun r => r.cc.lastSexp.length) = some 1 := by
    decide +kernel
  have hmode : ∀ l ∈ Loop.heads (cparseHead ⟨.plain, [lparen, 97, rparen, nul], 3⟩)
      (fuel ⟨.plain, [lparen, 97, rparen, nul], 3⟩) ((Pcont.new .plain).enter 3),
      l.mode ≠ .eventsOnly := by
    decide +kernel
  obtain ⟨r, hret, hlength⟩ := Option.map_eq_some_iff.mp hrun
  refine ⟨r, hret, ?_, fresh_nodes_invisible
    (session_of_run (fun _ => rfl) hret fun l hl => ⟨fun _ => rfl, hmode l hl⟩)⟩
  exact List.ne_nil_of_length_pos (by omega)

/-- The binary atom of `(#b#1#x)` is found under the name `a` when the node it was built in held a
pointer to that string, and is not found when it held `NULL`. -/
theorem blob_found_by_junk :
    (cparseSexp .plain (some [lparen, hash, letterB, hash, 49, hash, 120, rparen, nul]) 8
        (some { Pcont.new .plain with mode := .inlineBinary }) .ok).returnOf.map (fun r =>
      (Nodes.findSexp [97, nul] (buildNodes (fun _ => 0)
          (fun _ => ⟨.value, none, 0, 0, .basic, none, 0⟩) r.cc.lastSexp),
        Nodes.findSexp [97, nul] (buildNodes (fun _ => 0)
          (fun _ => ⟨.value, some ⟨0, [97, nul]⟩, 0, 0, .basic, none, 0⟩) r.cc.lastSexp))) =
      some (.ok none, .ok (some [0, 0])) := by
  decide +kernel

end Sessions

end Sfsexp.Proofs
