import Sfsexp.Spec.Reader

/-!
# The grammar as a recursive reader

What a text without backslashes means: elements separated by white space and comments, nested by
parentheses. Each function gives back the unread rest of the text.
-/

namespace Sfsexp.Spec

mutual
/-- Skips white space and comments. -/
def skipGap : List Byte → List Byte
  | [] => []
  | c :: w => if isWhite c then skipGap w else if c = semicolon then skipComment w else c :: w

def skipComment : List Byte → List Byte
  | [] => []
  | c :: w => if c = newline then skipGap w else skipComment w
end

/-- Through the next double quote. -/
def readString (w : List Byte) : Option (List Byte × List Byte) :=
  match w.dropWhile (· ≠ dquote) with
  | [] => none
  | _ :: rest => some (w.takeWhile (· ≠ dquote), rest)

/-- The longest run of atom bytes; it is complete when a byte follows. -/
def readBare (w : List Byte) : Option (List Byte × List Byte) :=
  match w.dropWhile isAtomByte with
  | [] => none
  | c :: rest => some (w.takeWhile isAtomByte, c :: rest)

/-- The open parens of a quoted list behind `c`. -/
def depthAfter (depth : Nat) (inString : Bool) (c : Byte) : Nat :=
  if inString then depth
  else if c = lparen then depth + 1
  else if c = rparen then depth - 1
  else depth

/-- Through the paren that closes the first one; parens inside double quotes do not count. -/
def readQuotedList (depth : Nat) (inString : Bool) : List Byte → Option (List Byte × List Byte)
  | [] => none
  | c :: w =>
    if c = rparen ∧ inString = false ∧ depth = 1 then some ([c], w)
    else
      (readQuotedList (depthAfter depth inString c) (inString ^^ (c == dquote)) w).map
        (Prod.map (c :: ·) id)

/-- The atom behind an apostrophe. -/
def readTick (w : List Byte) : Option (Tree × List Byte) :=
  match w with
  | [] => none
  | c :: v =>
    if c = lparen then (readQuotedList 0 false w).map (Prod.map (.atom .squote) id)
    else if c = dquote then
      (readString v).map (Prod.map (fun text => .atom .squote (dquote :: text ++ [dquote])) id)
    else (readBare w).map (Prod.map (.atom .squote) id)

/-- The atom that starts with `c`. -/
def readAtom (c : Byte) (w : List Byte) : Option (Tree × List Byte) :=
  if c = dquote then (readString w).map (Prod.map (.atom .dquote) id)
  else if c = tick then readTick w
  else (readBare w).map (Prod.map (fun text => .atom .basic (c :: text)) id)

/-- What comes next in a text: an element, a closing paren, or the end in the middle of either. -/
inductive Reading where
  | element (x : Tree) (rest : List Byte)
  | close (rest : List Byte)
  | more

mutual
/-- The next element, by at most `n` nested or repeated steps. -/
def readElement : Nat → List Byte → Reading
  | 0, _ => .more
  | n + 1, w =>
    match skipGap w with
    | [] => .more
    | c :: v =>
      if c = lparen then
        match readElements n v with
        | some (T, rest) => .element (.list T) rest
        | none => .more
      else if c = rparen then .close v
      else
        match readAtom c v with
        | some (x, rest) => .element x rest
        | none => .more

/-- The elements up to a closing paren. -/
def readElements : Nat → List Byte → Option (List Tree × List Byte)
  | 0, _ => none
  | n + 1, w =>
    match readElement n w with
    | .element x rest => (readElements n rest).map (Prod.map (x :: ·) id)
    | .close rest => some ([], rest)
    | .more => none
end

end Sfsexp.Spec
