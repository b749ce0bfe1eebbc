import Sfsexp.Lib.Feed
import Sfsexp.Model.Sexp

/-!
# The parser as a reader of bytes

An abstract account of `cparse_sexp` in mode `PARSER_NORMAL`: a machine that is fed one byte at a
time, keeps the text of the current token and the children of the open lists, and puts out a tree
for each top-level expression it completes. It keeps the escape flag from one token to the next
exactly as the parser does.
-/

namespace Sfsexp

/-- An expression without its buffers. -/
inductive Tree where
  | atom (aty : AtomT) (text : List Byte)
  | binary (data : List Byte)
  | list (elems : List Tree)
  deriving Repr

mutual
def Sexp.tree : Sexp → Tree
  | .value aty val _ _ => .atom aty (cstr val)
  | .blob bindata _ => .binary (bindata.getD [])
  | .list elems => .list (forest elems)

def forest : List Sexp → List Tree
  | [] => []
  | x :: xs => x.tree :: forest xs
end

@[simp] lemma forest_append (xs ys : List Sexp) : forest (xs ++ ys) = forest xs ++ forest ys := by
  induction xs with
  | nil => rfl
  | cons x xs ih => simp [forest, ih]

namespace Spec

/-- What the reader is in the middle of. -/
inductive Lex where
  | gap
  | comment
  | bare
  | quoted
  | tick
  | quotedList
  | quotedString
  deriving DecidableEq, Repr

/-- Why the reader stops: a closing paren without its opening one, or an escaped byte in a token
whose backslash belongs to an earlier one. -/
inductive ReadErr where
  | badForm
  | stray
  deriving DecidableEq, Repr

/-- The state of the reader. `pair` tells that the last byte ended an escape pair inside double
quotes. -/
structure Reader where
  lex : Lex
  squoted : Bool
  esc : Bool
  pair : Bool
  qdepth : Int
  text : List Byte
  levels : List (List Tree)

def Reader.start : Reader := ⟨.gap, false, false, false, 0, [], []⟩

/-- What reading a byte, or a word, leads to. -/
abbrev Outcome := List Tree × Except ReadErr Reader

namespace Reader

variable (r : Reader) (c : Byte)

/-- Appends a byte to the token; a backslash escapes the byte after it. -/
def push : Reader := { r with text := r.text ++ [c], esc := c == backslash }

/-- Replaces the backslash at the end of the token by the byte it escapes. -/
def escape : Outcome :=
  match r.text with
  | [] => ([], .error .stray)
  | _ => ([], .ok { r with text := r.text.dropLast ++ [c], esc := false })

/-- The end of a token. -/
def finishAtom (aty : AtomT) : Outcome :=
  match r.levels with
  | [] => ([.atom aty r.text], .ok start)
  | T :: Ls =>
    ([], .ok { r with lex := .gap, squoted := false, text := []
                      levels := (T ++ [.atom aty r.text]) :: Ls })

def feedGap : Outcome :=
  if isWhite c then ([], .ok r)
  else if c = semicolon then ([], .ok { r with lex := .comment })
  else if c = lparen then ([], .ok { r with levels := [] :: r.levels })
  else if c = rparen then
    match r.levels with
    | [] => ([], .error .badForm)
    | [T] => ([.list T], .ok start)
    | T :: T' :: Ls => ([], .ok { r with levels := (T' ++ [.list T]) :: Ls })
  else if c = dquote then ([], .ok { r with lex := .quoted })
  else if c = tick then ([], .ok { r with lex := .tick })
  else ([], .ok ({ r with lex := .bare }.push c))

/-- The byte after a bare atom is read as if it stood alone. -/
def feedBare : Outcome :=
  if r.esc && isEscapable c then r.escape c
  else if isAtomByte c then ([], .ok (r.push c))
  else
    match r.finishAtom (if r.squoted then .squote else .basic) with
    | (out, .ok r') => (out ++ (r'.feedGap c).1, (r'.feedGap c).2)
    | (out, .error e) => (out, .error e)

def feedQuoted : Outcome :=
  if r.esc && isEscapable c then { r with pair := true }.escape c
  else if c = dquote then
    if r.squoted then { r with text := r.text ++ [dquote] }.finishAtom .squote
    else r.finishAtom .dquote
  else ([], .ok (r.push c))

/-- Inside a quoted list; its last closing paren ends the token. -/
def feedQuotedList : Outcome :=
  if r.esc then ([], .ok (r.push c))
  else if c = lparen then ([], .ok ({ r with qdepth := r.qdepth + 1 }.push c))
  else if c = rparen then
    if r.qdepth - 1 = 0 then ({ r with qdepth := 0 }.push c).finishAtom .squote
    else ([], .ok ({ r with qdepth := r.qdepth - 1 }.push c))
  else if c = dquote then ([], .ok ({ r with lex := .quotedString }.push c))
  else ([], .ok (r.push c))

def feedQuotedString : Outcome :=
  if c = dquote ∧ r.esc = false then ([], .ok ({ r with lex := .quotedList }.push c))
  else ([], .ok (r.push c))

/-- After an apostrophe. -/
def feedTick : Outcome :=
  if c = dquote then
    ([], .ok { r with lex := .quoted, squoted := true, text := [dquote] })
  else if c = lparen then { r with lex := .quotedList }.feedQuotedList c
  else { r with lex := .bare, squoted := true }.feedBare c

/-- `feed` on a reader whose `pair` is clear. -/
def feedLex : Outcome :=
  match r.lex with
  | .gap => r.feedGap c
  | .comment => ([], .ok (if c = newline then { r with lex := .gap } else r))
  | .bare => r.feedBare c
  | .quoted => r.feedQuoted c
  | .tick => r.feedTick c
  | .quotedList => r.feedQuotedList c
  | .quotedString => r.feedQuotedString c

def feed : Outcome := { r with pair := false }.feedLex c

end Reader

/-- Reads a word from the state `r`. -/
def scan (r : Reader) (w : List Byte) : Outcome := Feed.feedAll Reader.feed r w

/-- Goes on after `o` with the word `w`. -/
def scanOn (o : Outcome) (w : List Byte) : Outcome := Feed.resume Reader.feed o w

@[simp] lemma scan_nil (r : Reader) : scan r [] = ([], .ok r) := rfl

lemma scan_cons (r : Reader) (c : Byte) (w : List Byte) :
    scan r (c :: w) = scanOn (r.feed c) w :=
  Feed.feedAll_cons r c w

lemma scan_append (r : Reader) (v w : List Byte) : scan r (v ++ w) = scanOn (scan r v) w :=
  Feed.feedAll_append r v w

lemma scan_singleton (r : Reader) (c : Byte) : scan r [c] = r.feed c := Feed.feedAll_singleton r c

lemma scanOn_scanOn (o : Outcome) (v w : List Byte) : scanOn (scanOn o v) w = scanOn o (v ++ w) :=
  Feed.resume_resume o v w

@[simp] lemma scanOn_nil (o : Outcome) : scanOn o [] = o := Feed.resume_nil o

lemma scanOn_ok (out : List Tree) (r : Reader) (w : List Byte) :
    scanOn (out, .ok r) w = (out ++ (scan r w).1, (scan r w).2) := rfl

@[simp] lemma scanOn_error (out : List Tree) (e : ReadErr) (w : List Byte) :
    scanOn (out, .error e) w = (out, .error e) := rfl

/-- Between outputs, going on is reading on. -/
@[simp] lemma scanOn_silent (r : Reader) (w : List Byte) : scanOn ([], .ok r) w = scan r w := rfl

lemma scanOn_cons (x : Tree) (out : List Tree) (e : Except ReadErr Reader) (w : List Byte) :
    scanOn (x :: out, e) w = (x :: (scanOn (out, e) w).1, (scanOn (out, e) w).2) := by
  cases e <;> rfl

end Spec

end Sfsexp
