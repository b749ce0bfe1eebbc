import Sfsexp.Spec.Reader

/-!
# The quote flag of the event-only parser

What `squoted` is in mode `PARSER_EVENTS_ONLY`, told from the bytes that are read. It is set by an
apostrophe and cleared behind a bare atom, and outside of lists behind every expression. Behind a
single-quoted string inside a list it is left set. Where an outermost list ends, it goes back to the
value that the call started with. The type of an atom is taken from it.
-/

namespace Sfsexp.Spec

open Sfsexp

/-- The flag that is `kept`, the value of it that the call was `entered` with, and whether an atom was
`mixed` up: it was reported while the flag differed from what the atom is. -/
structure QuoteFlag where
  kept : Bool
  entered : Bool
  mixed : Bool
  deriving DecidableEq, Repr

namespace QuoteFlag

variable (q : QuoteFlag) (r : Reader) (c : Byte)

def start : QuoteFlag := ⟨false, false, false⟩

/-- A call starts with the value that the one before it left. -/
def enter : QuoteFlag := { q with entered := q.kept }

def report : QuoteFlag := { q with mixed := q.mixed || (q.kept != r.squoted) }

/-- Outside of lists the end of a token is the end of the call, which clears the flag. -/
def leave : QuoteFlag := if r.levels = [] then { q with kept := false, entered := false } else q

/-- The end of an outermost list. -/
def feedGap : QuoteFlag :=
  if c = rparen ∧ r.levels.length = 1 then { q with kept := q.entered } else q

def feedBare : QuoteFlag :=
  if (r.esc && isEscapable c) || isAtomByte c then q
  else ({ q.report r with kept := false }.leave r).feedGap r c

def feedQuoted : QuoteFlag :=
  if r.esc && isEscapable c then q
  else if c = dquote then (q.report r).leave r
  else q

def feedQuotedList : QuoteFlag :=
  if r.esc then q
  else if c = rparen ∧ r.qdepth - 1 = 0 then q.leave r
  else q

/-- After an apostrophe. -/
def feedTick : QuoteFlag :=
  if c = dquote then { q with kept := true }
  else if c = lparen then q
  else { q with kept := true }.feedBare { r with squoted := true } c

/-- The flag behind the byte `c`, which is read in the state `r`. -/
def feed : QuoteFlag :=
  match r.lex with
  | .gap => q.feedGap r c
  | .bare => q.feedBare r c
  | .quoted => q.feedQuoted r c
  | .tick => q.feedTick r c
  | .quotedList => q.feedQuotedList r c
  | .comment | .quotedString => q

/-- The flag behind a word, or behind the byte that the reader stops at. -/
def follow (q : QuoteFlag) (r : Reader) : List Byte → QuoteFlag
  | [] => q
  | c :: w =>
    match (r.feed c).2 with
    | .ok r' => (q.feed r c).follow r' w
    | .error _ => q.feed r c

/-- The flag behind chunks, each of which starts a call. -/
def across (q : QuoteFlag) (r : Reader) : List (List Byte) → QuoteFlag
  | [] => q
  | u :: us =>
    match (scan r u).2 with
    | .ok r' => (q.enter.follow r u).across r' us
    | .error _ => q.enter.follow r u

end QuoteFlag

end Sfsexp.Spec
