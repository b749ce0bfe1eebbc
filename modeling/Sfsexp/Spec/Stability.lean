import Sfsexp.Spec.Elements
import Sfsexp.Spec.Rendering

/-!
# Expressions that survive printing

When the rendering of an expression is read back as that expression, byte by byte: no atom may
contain a byte that ends or escapes it, and no byte in front of the next token may be escaped by a
backslash that an atom ends with.
-/

namespace Sfsexp.Spec

/-- No byte of `text` is escaped by the byte before it; `esc` tells of a backslash in front. -/
def Unescaped : Bool → List Byte → Prop
  | _, [] => True
  | esc, c :: text => (esc && isEscapable c) = false ∧ Unescaped (c == backslash) text

/-- The escape flag behind `text`. -/
def flagAfter : Bool → List Byte → Bool
  | esc, [] => esc
  | _, c :: text => flagAfter (c == backslash) text

/-- The bytes that a bare atom starts with. -/
def StartsBare (c : Byte) : Prop :=
  isWhite c = false ∧ c ≠ semicolon ∧ c ≠ lparen ∧ c ≠ rparen ∧ c ≠ dquote ∧ c ≠ tick

def StableBasic (text : List Byte) (next : Byte) : Prop :=
  ∃ c u, text = c :: u ∧ StartsBare c ∧ (∀ d ∈ u, isAtomByte d = true) ∧
    Unescaped (c == backslash) (u ++ [next])

/-- A flag that is still set would escape the first byte behind the double quote. -/
def StableDquote (esc : Bool) (text : List Byte) : Prop :=
  esc = true → ∃ c u, text = c :: u ∧ isEscapable c = false

def StableSquote (esc : Bool) (text : List Byte) (next : Byte) : Prop :=
  match text with
  | [] => (esc && isEscapable next) = false
  | c :: u =>
    if c = dquote then ∃ v, u = v ++ [dquote] ∧ dquote ∉ v ∧ Unescaped esc u
    else if c = lparen then listEnd false esc 0 [] text = some (text, [])
    else (∀ d ∈ text, isAtomByte d = true) ∧ Unescaped esc (text ++ [next])

/-- An atom survives in front of the byte `next` and behind the flag `esc`. -/
def StableAtom (esc : Bool) (aty : AtomT) (text : List Byte) (next : Byte) : Prop :=
  match aty with
  | .basic => StableBasic text next
  | .dquote => StableDquote esc text
  | .squote => StableSquote esc text next
  | .binary => False

mutual
/-- The flag that an expression leaves. -/
def flagOf (esc : Bool) : Tree → Bool
  | .atom aty text => if aty = .dquote then false else flagAfter esc text
  | .binary _ => esc
  | .list elems => flagOfAll esc elems

def flagOfAll (esc : Bool) : List Tree → Bool
  | [] => esc
  | x :: xs => flagOfAll (flagOf esc x) xs
end

/-- What stands behind an element of a list. -/
def nextByte : List Tree → Byte
  | [] => rparen
  | _ :: _ => space

mutual
/-- An expression survives in front of `next` and behind the flag `esc`. -/
def Stable (esc : Bool) : Tree → Byte → Prop
  | .atom aty text, next => StableAtom esc aty text next
  | .binary _, _ => False
  | .list elems, _ => StableAll esc elems

def StableAll (esc : Bool) : List Tree → Prop
  | [] => True
  | x :: xs => Stable esc x (nextByte xs) ∧ StableAll (flagOf esc x) xs
end

/-- The first expression of a text is printed as an expression that survives is. -/
def PrintsBack (w : List Byte) : Prop :=
  ∃ x esc rest, Element false (w ++ [newline]) x esc rest ∧
    ∃ y, Stable false y newline ∧ y.render = x.render

end Sfsexp.Spec
