import Mathlib.Algebra.Order.BigOperators.Group.List
import Mathlib.Algebra.Order.Ring.Nat
import Sfsexp.Proofs.ReaderInvariants
import Sfsexp.Proofs.ReadingCost
import Sfsexp.Spec.PartialText

/-!
# Reading what `print_pcont` shows

The reader that reads the text of a half-built expression opens its lists again, and with them the
lists without elements that are taken for open ones.
-/

namespace Sfsexp.Proofs

open Sfsexp Spec Reader

section Levels

variable {E T : List Tree} {Ls : List (List Tree)} {x : Tree} {w : List Byte}

lemma standsComplete_iff : standsComplete x = true ↔ x ≠ .list [] := by
  match x with
  | .atom aty text => simp [standsComplete]
  | .binary data => simp [standsComplete]
  | .list [] => simp [standsComplete]
  | .list (y :: ys) => simp [standsComplete]

lemma shownLevel_cons (hx : x ≠ .list []) :
    shownLevel (x :: E) = x.render ++ space :: shownLevel E := by
  rw [shownLevel]
  exact hx

lemma upToOpen_cons (hx : x ≠ .list []) : upToOpen (x :: E) = x :: upToOpen E :=
  List.takeWhile_cons_of_pos (standsComplete_iff.mpr hx)

lemma upToOpen_eq_self : upToOpen E = E ↔ ∀ x ∈ E, x ≠ .list [] := by
  rw [upToOpen, List.takeWhile_eq_self_iff]
  exact forall₂_congr fun _ _ => standsComplete_iff

/-- A level with the list that is open above it. -/
lemma scan_below (hE : LastingAll E) (T : List Tree) (Ls : List (List Tree)) :
    scan (between false (T :: Ls)) (shownLevel (E ++ [.list []]) ++ w) =
      scan (between false ([] :: (T ++ upToOpen E) :: Ls)) w := by
  induction E generalizing T with
  | nil =>
    rw [upToOpen, List.takeWhile_nil, List.append_nil]
    exact scan_between
  | cons x E ih =>
    by_cases hx : x = .list []
    · subst hx
      rw [upToOpen, List.takeWhile_cons_of_neg (by simp [standsComplete]), List.append_nil]
      exact scan_between
    · rw [List.cons_append, shownLevel_cons hx, List.append_assoc, List.cons_append,
        scan_lasting hE.1, ih hE.2, upToOpen_cons hx, List.append_assoc, List.singleton_append]

/-- What the reader makes of the top level: a list without elements is open. -/
def reopened (T E : List Tree) : List (List Tree) :=
  if E.all standsComplete then [T ++ E] else [[], T ++ upToOpen E]

lemma scan_top (hE : LastingAll E) (T : List Tree) (Ls : List (List Tree)) :
    scan (between false (T :: Ls)) (shownLevel E) =
      ([], .ok (between false (reopened T E ++ Ls))) := by
  induction E generalizing T with
  | nil =>
    rw [reopened, List.all_nil, if_pos rfl, List.append_nil]
    rfl
  | cons x E ih =>
    by_cases hx : x = .list []
    · subst hx
      have hstop : standsComplete (.list []) = false := rfl
      rw [reopened, List.all_cons, hstop, Bool.false_and, if_neg Bool.false_ne_true, upToOpen,
        List.takeWhile_cons_of_neg (by simp [hstop]), List.append_nil]
      rfl
    · have hgo : standsComplete x = true := standsComplete_iff.mpr hx
      rw [shownLevel_cons hx, scan_lasting hE.1, ih hE.2, reopened, reopened, List.all_cons, hgo,
        Bool.true_and, upToOpen_cons hx, List.append_assoc, List.append_assoc,
        List.singleton_append, List.singleton_append]

/-- The levels below the top, from the bottom one. -/
lemma scan_belows (hLs : ∀ E ∈ Ls, LastingAll E) (above : List (List Tree)) :
    scan (between false ([] :: above))
        ((Ls.map fun E => shownLevel (E ++ [.list []])).flatten ++ w) =
      scan (between false ([] :: ((Ls.map upToOpen).reverse ++ above))) w := by
  induction Ls generalizing above with
  | nil => rfl
  | cons E Ls ih =>
    obtain ⟨hE, hrest⟩ := List.forall_mem_cons.mp hLs
    rw [List.map_cons, List.flatten_cons, List.append_assoc, scan_below hE, ih hrest,
      List.map_cons, List.reverse_cons, List.append_assoc, List.nil_append, List.singleton_append]

end Levels

section Text

variable {cc : Pcont} {T : List Sexp} {L : List (List Sexp)}

lemma forest_open (E : List Sexp) : forest (E ++ [.list []]) = forest E ++ [.list []] :=
  forest_append E [.list []]

lemma completed_of_stack {L : List (List Sexp)} (h : StackOk cc.stack L) :
    completed cc = L.map forest := by
  rw [completed, h.levels]
  cases L with
  | nil => rfl
  | cons T L => simp [openLevels, completeChains, Function.comp_def]

lemma shownText_of_stack (h : StackOk cc.stack (T :: L)) :
    shownText cc = [lparen] ++
      ((L.reverse.map fun E => shownLevel (forest E ++ [.list []])).flatten ++
        shownLevel (forest T)) := by
  have hbottom : shownLevel (forest [.list []]) = [lparen] := rfl
  simp only [shownText, h.levels, openLevels, List.reverse_cons, List.reverse_append,
    List.map_append, List.map_cons, List.map_nil, List.flatten_append, List.flatten_cons,
    List.flatten_nil, List.append_nil, List.nil_append, List.reverse_nil, hbottom,
    ← List.map_reverse, List.map_map, Function.comp_def, forest_open,
    List.cons_append]

/-- The reader on the text of a half-built expression. -/
lemma scan_shownText (h : StackOk cc.stack (T :: L)) (hall : ∀ E ∈ (T :: L).map forest, LastingAll E) :
    scan Reader.start (shownText cc) =
      ([], .ok (between false (reopened [] (forest T) ++ (L.map forest).map upToOpen))) := by
  obtain ⟨hT, hL⟩ := List.forall_mem_cons.mp hall
  have hrev : ∀ E ∈ L.reverse.map forest, LastingAll E := by
    intro E hE
    rw [List.map_reverse, List.mem_reverse] at hE
    exact hL E hE
  have hbelow := fun w => @scan_belows (L.reverse.map forest) w hrev []
  simp only [List.map_map, Function.comp_def] at hbelow
  rw [shownText_of_stack h, List.singleton_append, ← between_nil, scan_between, gap_open,
    scanOn_silent, hbelow, scan_top hT]
  simp [Function.comp_def]

lemma shownLevel_length (E : List Tree) : (shownLevel E).length ≤ printedLength E := by
  induction E with
  | nil => exact Nat.le_refl _
  | cons x E ih =>
    by_cases hx : x = .list []
    · subst hx
      simp only [shownLevel, printedLength, List.map_cons, List.sum_cons, List.length_singleton]
      omega
    · rw [shownLevel_cons hx]
      simp only [printedLength, List.map_cons, List.sum_cons, List.length_append,
        List.length_cons] at ih ⊢
      omega

lemma shownLevel_open_length (E : List Tree) :
    (shownLevel (E ++ [.list []])).length ≤ printedLength E + 1 := by
  induction E with
  | nil => exact Nat.le_refl _
  | cons x E ih =>
    by_cases hx : x = .list []
    · subst hx
      simp only [List.cons_append, shownLevel, List.length_singleton]
      omega
    · rw [List.cons_append, shownLevel_cons hx]
      simp only [printedLength, List.map_cons, List.sum_cons, List.length_append,
        List.length_cons] at ih ⊢
      omega

lemma shownText_length (h : StackOk cc.stack (T :: L)) :
    (shownText cc).length ≤ weight (completed cc) := by
  have hbelow : (L.reverse.map fun E => shownLevel (forest E ++ [.list []])).flatten.length ≤
      weight (L.map forest) := by
    rw [List.map_reverse, List.length_flatten, List.map_reverse, List.sum_reverse, List.map_map,
      weight, List.map_map]
    apply List.sum_le_sum
    intro E _
    exact shownLevel_open_length (forest E)
  have htop := shownLevel_length (forest T)
  rw [completed_of_stack h, List.map_cons, weight_cons, shownText_of_stack h]
  simp only [List.length_append, List.length_singleton]
  omega

end Text

end Sfsexp.Proofs
