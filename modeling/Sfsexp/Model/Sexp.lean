import Mathlib.Algebra.Ring.Int.Defs
import Mathlib.Algebra.Ring.Nat
import Mathlib.Data.List.Basic

/-!
# Expressions, errors and parser modes

The data of `sexp.h` and `sexp_errors.h`. A `sexp_t *` is read as the chain of elements that
hangs off it through `next`, so the pointer is a list of elements and `NULL` is the empty list.
-/

namespace Sfsexp

/-- A `char` of the input or of a buffer. -/
abbrev Byte := UInt8

abbrev nul : Byte := 0
abbrev tab : Byte := 9
abbrev newline : Byte := 10
abbrev carriage : Byte := 13
abbrev space : Byte := 32
abbrev bang : Byte := 33
abbrev dquote : Byte := 34
abbrev hash : Byte := 35
abbrev ampersand : Byte := 38
abbrev tick : Byte := 39
abbrev lparen : Byte := 40
abbrev rparen : Byte := 41
abbrev star : Byte := 42
abbrev semicolon : Byte := 59
abbrev backslash : Byte := 92
abbrev letterB : Byte := 98
abbrev tilde : Byte := 126

/-- `atom_t`. -/
inductive AtomT where
  | basic
  | squote
  | dquote
  | binary
  deriving DecidableEq, Repr

/-- `sexp_errcode_t`, as far as the modelled functions use it. -/
inductive ErrCode where
  | ok
  | memory
  | badForm
  | badContent
  | nullString
  | ioEmpty
  | memLimit
  | badParam
  | badStack
  | unknownState
  | incomplete
  | bufferFull
  | badConstructor
  deriving DecidableEq, Repr

/-- `parsermode_t`. -/
inductive ParserMode where
  | normal
  | inlineBinary
  | eventsOnly
  deriving DecidableEq, Repr

/-- `sexp_t`. The fields of the case at hand are kept: a text atom owns the buffer `val`, all of
its `valAllocated` cells included; an `SEXP_BINARY` atom owns `bindata`; a list owns the chain its
`list` pointer starts. -/
inductive Sexp where
  | value (aty : AtomT) (val : List Byte) (valAllocated valUsed : Nat)
  | blob (bindata : Option (List Byte)) (binlength : Nat)
  | list (elems : List Sexp)
  deriving Repr

/-- A callback of `parser_event_handlers_t` with its arguments. The data argument is the `len`
bytes that the pointer handed to the callback denotes. -/
inductive Event where
  | startSexpr
  | endSexpr
  | characters (data : List Byte) (len : Nat) (aty : AtomT)
  | binary (data : List Byte) (len : Nat)
  deriving DecidableEq, Repr

/-- `parser_event_handlers_t`: which of the callbacks are set. -/
structure Handlers where
  startSexpr : Bool
  endSexpr : Bool
  characters : Bool
  binary : Bool
  deriving DecidableEq, Repr

/-- The C string held by a buffer. -/
def cstr (val : List Byte) : List Byte := val.takeWhile (· ≠ nul)

/-- The white space that separates tokens. -/
def isWhite (c : Byte) : Bool := c == newline || c == space || c == tab || c == carriage

/-- The bytes that continue a bare atom. `char` may be signed, so the bytes above 127 are asked
for by themselves. -/
def isAtomByte (c : Byte) : Bool :=
  (decide (star ≤ c) && decide (c ≤ tilde)) || decide (127 < c) || c == bang ||
    (decide (hash ≤ c) && decide (c ≤ ampersand))

/-- The bytes that a preceding backslash escapes. -/
def isEscapable (c : Byte) : Bool :=
  c == dquote || c == lparen || c == rparen || c == tick || c == backslash

end Sfsexp
