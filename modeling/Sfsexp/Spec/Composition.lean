import Sfsexp.Spec.Elements

/-!
# Elements one after the other

What the escape flag that an earlier element left can do to a later one.
-/

namespace Sfsexp.Spec

/-- The first token of the text that looks at the escape flag is read differently when the flag is
set. Parens, and apostrophes with nothing behind them, do not look at it. -/
inductive Sensitive : List Byte → Prop where
  | paren {w v : List Byte} {c : Byte} (hgap : skipGap w = c :: v) (hc : c = lparen ∨ c = rparen)
      (hv : Sensitive v) : Sensitive w
  | empty {w v : List Byte} {c : Byte} (hgap : skipGap w = tick :: c :: v)
      (hatom : isAtomByte c = false) (he : isEscapable c = false) (hv : Sensitive (c :: v)) :
      Sensitive w
  | dquote {w v : List Byte} {c : Byte} (hgap : skipGap w = dquote :: c :: v)
      (he : isEscapable c = true) : Sensitive w
  | tick {w v : List Byte} {c : Byte} (hgap : skipGap w = tick :: c :: v) (hd : c ≠ dquote)
      (he : isEscapable c = true) : Sensitive w
  | string {w v : List Byte} {c : Byte} (hgap : skipGap w = tick :: dquote :: c :: v)
      (he : isEscapable c = true) : Sensitive w

mutual
/-- No atom of the expression sets or clears the flag. -/
def Flagless : Tree → Prop
  | .atom aty text => aty = .squote ∧ text = []
  | .binary _ => False
  | .list elems => FlaglessAll elems

def FlaglessAll : List Tree → Prop
  | [] => True
  | x :: xs => Flagless x ∧ FlaglessAll xs
end

mutual
instance Flagless.decide : (x : Tree) → Decidable (Flagless x)
  | .atom aty text => inferInstanceAs (Decidable (aty = .squote ∧ text = []))
  | .binary _ => inferInstanceAs (Decidable False)
  | .list elems => FlaglessAll.decide elems

instance FlaglessAll.decide : (xs : List Tree) → Decidable (FlaglessAll xs)
  | [] => inferInstanceAs (Decidable True)
  | x :: xs =>
    have := Flagless.decide x
    have := FlaglessAll.decide xs
    inferInstanceAs (Decidable (Flagless x ∧ FlaglessAll xs))
end

/-- The flag behind `x` when the flag in front of it is `esc`; read by itself, `x` leaves `own`. -/
def flagBehind (esc own : Bool) (x : Tree) : Bool := if esc = true ∧ Flagless x then true else own

/-- No element that the flag would change stands where the flag is set. -/
def NoClash (esc : Bool) : List (List Byte) → Prop
  | [] => True
  | e :: es =>
    (esc = true → ¬ Sensitive (e ++ [newline])) ∧
      ∀ x own rest, Element false (e ++ [newline]) x own rest → NoClash (flagBehind esc own x) es

/-- The elements of a list, each on a line of its own. -/
def lines (es : List (List Byte)) : List Byte := es.flatMap fun e => e ++ [newline]

end Sfsexp.Spec
