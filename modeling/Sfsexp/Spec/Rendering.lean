import Sfsexp.Spec.Reader

/-!
# Expressions as text

What an expression is printed as: single spaces between the elements of a list, and a backslash in
front of the double quotes and backslashes of a double-quoted atom.
-/

namespace Sfsexp

/-- The text between the double quotes of an atom. -/
def escapeText : List Byte → List Byte
  | [] => []
  | c :: t =>
    if c = dquote ∨ c = backslash then backslash :: c :: escapeText t else c :: escapeText t

/-- An atom as text. -/
def renderAtom (aty : AtomT) (text : List Byte) : List Byte :=
  match aty with
  | .dquote => dquote :: escapeText text ++ [dquote]
  | .squote => tick :: text
  | _ => text

/-- What stands between an element and the elements behind it. -/
def separator {α : Type} : List α → List Byte
  | [] => []
  | _ :: _ => [space]

mutual
def Tree.render : Tree → List Byte
  | .atom aty text => renderAtom aty text
  | .binary data =>
    [hash, letterB, hash] ++ (Nat.toDigits 10 data.length).map (fun d => d.toNat.toUInt8) ++
      [hash] ++ data ++ [space]
  | .list elems => lparen :: renderAll elems ++ [rparen]

def renderAll : List Tree → List Byte
  | [] => []
  | x :: xs => x.render ++ separator xs ++ renderAll xs
end

/-- A text whose parens match; those inside double quotes do not count. -/
inductive Balanced : List Byte → Prop where
  | nil : Balanced []
  | byte (c : Byte) (t : List Byte) (hl : c ≠ lparen) (hr : c ≠ rparen) (hd : c ≠ dquote)
      (ht : Balanced t) : Balanced (c :: t)
  | string (u t : List Byte) (hu : dquote ∉ u) (ht : Balanced t) :
      Balanced (dquote :: u ++ dquote :: t)
  | group (u t : List Byte) (hu : Balanced u) (ht : Balanced t) :
      Balanced (lparen :: u ++ rparen :: t)

/-- The texts of single-quoted atoms. -/
inductive QuotedText : List Byte → Prop where
  | bare (t : List Byte) (ht : ∀ c ∈ t, isAtomByte c = true) : QuotedText t
  | string (u : List Byte) (hu : dquote ∉ u) : QuotedText (dquote :: u ++ [dquote])
  | list (u : List Byte) (hu : Balanced u) : QuotedText (lparen :: u ++ [rparen])

/-- The texts that an atom of each type is read back with. -/
def ReadableAtom (aty : AtomT) (text : List Byte) : Prop :=
  match aty with
  | .basic => text ≠ [] ∧ (∀ c ∈ text, isAtomByte c = true) ∧ text.head? ≠ some semicolon ∧
      backslash ∉ text
  | .squote => QuotedText text ∧ backslash ∉ text ∧ nul ∉ text
  | .dquote => nul ∉ text
  | .binary => False

mutual
/-- The expressions whose rendering is read back as they are. -/
def Readable : Tree → Prop
  | .atom aty text => ReadableAtom aty text
  | .binary _ => False
  | .list elems => ReadableAll elems

def ReadableAll : List Tree → Prop
  | [] => True
  | x :: xs => Readable x ∧ ReadableAll xs
end

mutual
/-- The expressions whose rendering is read back as they are in inline binary mode: the length of a
blob fits an `int`, and no basic atom starts like the header of a blob. -/
def InlineReadable : Tree → Prop
  | .atom aty text => ReadableAtom aty text ∧ (aty = .basic → ¬ [hash, letterB, hash] <+: text)
  | .binary data => data.length < 2 ^ 31
  | .list elems => InlineReadableAll elems

def InlineReadableAll : List Tree → Prop
  | [] => True
  | x :: xs => InlineReadable x ∧ InlineReadableAll xs
end

end Sfsexp
