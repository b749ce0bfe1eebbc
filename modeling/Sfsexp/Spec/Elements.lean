import Sfsexp.Spec.Grammar

/-!
# Reading whole elements

The reader in big steps, escapes included: which element a text starts with when the escape flag
stands at `esc`, what the flag is left at, and what is unread.
-/

namespace Sfsexp.Spec

/-- The rest of a bare atom whose first bytes are `text`. -/
def bareEnd (esc : Bool) (text : List Byte) : List Byte → Option (List Byte × Bool × List Byte)
  | [] => none
  | c :: w =>
    if esc && isEscapable c then
      if text = [] then none else bareEnd false (text.dropLast ++ [c]) w
    else if isAtomByte c then bareEnd (c == backslash) (text ++ [c]) w
    else some (text, esc, c :: w)

/-- The rest of a double-quoted text. -/
def quotedEnd (esc : Bool) (text : List Byte) : List Byte → Option (List Byte × List Byte)
  | [] => none
  | c :: w =>
    if esc && isEscapable c then
      if text = [] then none else quotedEnd false (text.dropLast ++ [c]) w
    else if c = dquote then some (text, w)
    else quotedEnd (c == backslash) (text ++ [c]) w

/-- The open parens of a quoted list behind `c`. An escaped one does not count. -/
def parensAfter (inString esc : Bool) (depth : Int) (c : Byte) : Int :=
  if inString || esc then depth
  else if c = lparen then depth + 1
  else if c = rparen then depth - 1
  else depth

/-- The rest of a quoted list inside `depth` parens. -/
def listEnd (inString esc : Bool) (depth : Int) (text : List Byte) :
    List Byte → Option (List Byte × List Byte)
  | [] => none
  | c :: w =>
    if inString = false ∧ esc = false ∧ c = rparen ∧ depth - 1 = 0 then some (text ++ [c], w)
    else
      listEnd (inString ^^ (c == dquote && !esc)) (c == backslash)
        (parensAfter inString esc depth c) (text ++ [c]) w

/-- The atom behind an apostrophe. -/
def nextTick (esc : Bool) : List Byte → Option (Tree × Bool × List Byte)
  | [] => none
  | c :: w =>
    if c = dquote then
      (quotedEnd esc [dquote] w).map fun (text, rest) =>
        (.atom .squote (text ++ [dquote]), false, rest)
    else if c = lparen then
      (listEnd false esc 0 [] (c :: w)).map fun (text, rest) => (.atom .squote text, false, rest)
    else (bareEnd esc [] (c :: w)).map fun (text, esc, rest) => (.atom .squote text, esc, rest)

/-- The atom that starts with `c`. -/
def nextAtom (esc : Bool) (c : Byte) (w : List Byte) : Option (Tree × Bool × List Byte) :=
  if c = dquote then (quotedEnd esc [] w).map fun (text, rest) => (.atom .dquote text, false, rest)
  else if c = tick then nextTick esc w
  else (bareEnd (c == backslash) [c] w).map fun (text, esc, rest) => (.atom .basic text, esc, rest)

mutual
/-- `Element esc w x esc' rest`: with the flag at `esc`, the text `w` starts with the element `x`,
which leaves the flag at `esc'` and the bytes `rest` unread. -/
inductive Element : Bool → List Byte → Tree → Bool → List Byte → Prop where
  | atom {esc esc' : Bool} {w v rest : List Byte} {c : Byte} {x : Tree} (hgap : skipGap w = c :: v)
      (hl : c ≠ lparen) (hr : c ≠ rparen) (hatom : nextAtom esc c v = some (x, esc', rest)) :
      Element esc w x esc' rest
  | list {esc esc' : Bool} {w v rest : List Byte} {T : List Tree} (hgap : skipGap w = lparen :: v)
      (hall : Elements esc v T esc' rest) : Element esc w (.list T) esc' rest

/-- The elements up to a closing paren. -/
inductive Elements : Bool → List Byte → List Tree → Bool → List Byte → Prop where
  | nil {esc : Bool} {w v : List Byte} (hgap : skipGap w = rparen :: v) : Elements esc w [] esc v
  | cons {esc esc₁ esc₂ : Bool} {w v rest : List Byte} {x : Tree} {T : List Tree}
      (hone : Element esc w x esc₁ v) (hall : Elements esc₁ v T esc₂ rest) :
      Elements esc w (x :: T) esc₂ rest
end

end Sfsexp.Spec
