import Sfsexp.Model.Calls

/-!
# The parentheses of a quoted list

What a text opens and closes, a byte being escaped when the byte before it is a backslash, and the
runs of both parsers with the quoted text that was read so far beside the locals.
-/

namespace Sfsexp.Spec

open Sfsexp

/-- A quoted text up to some place: whether the last byte was a backslash, whether the place is inside
double quotes, and the parentheses that were opened less those that were closed. -/
structure QuotedScan where
  esc : Bool
  inString : Bool
  depth : Int
  deriving DecidableEq, Repr

def QuotedScan.read (q : QuotedScan) (c : Byte) : QuotedScan where
  esc := c == backslash
  inString := if c = dquote ∧ q.esc = false then !q.inString else q.inString
  depth :=
    if q.esc = true ∨ q.inString = true then q.depth
    else if c = lparen then q.depth + 1
    else if c = rparen then q.depth - 1
    else q.depth

def scanQuoted (text : List Byte) : QuotedScan := text.foldl QuotedScan.read ⟨false, false, 0⟩

/-- The parentheses that `text` opens, unescaped and outside double quotes, less those it closes. -/
def opened (text : List Byte) : Int := (scanQuoted text).depth

/-- The quoted text behind the round at `l`, which reads a byte in states 8 and 10. -/
def textAfter (env : Env) (l : Locals) (text : List Byte) : List Byte :=
  if l.state = .s8 ∨ l.state = .s10 then text ++ (env.buf[l.t]?).toList else []

/-- The round at `l` decrements the depth counter. -/
def Decrements (env : Env) (l : Locals) : Prop :=
  l.state = .s8 ∧ env.buf[l.t]? = some rparen ∧ l.t ≠ env.len ∧ l.esc = false

instance (env : Env) (l : Locals) : Decidable (Decrements env l) :=
  inferInstanceAs (Decidable (_ ∧ _))

/-- A round of either parser, with the quoted text. -/
def quotedHead (k : Call) (cc : Pcont) (m : Locals × List Byte) : Except Stop (Locals × List Byte) :=
  (k.head cc m.1).map fun l => (l, textAfter k.env m.1 m.2)

/-- The continuations of a client all of whose rounds met `C`, with the quoted text that was read when
the last call returned. -/
inductive QuotedSession (C : Env → Locals → Prop) : Pcont → List Byte → Prop where
  | start {g : Setup} {cc : Pcont} {n : Nat} (h : initContinuation g = (some cc, n)) :
      QuotedSession C cc []
  | configure {cc : Pcont} {text : List Byte} (h : QuotedSession C cc text) (mode : ParserMode)
      (handlers : Option Handlers) :
      QuotedSession C { cc with mode := mode, eventHandlers := handlers } text
  | call {cc : Pcont} {k : Call} {allocs : Nat} {l : Locals} {text text' : List Byte} {r : Return}
      (h : QuotedSession C cc text)
      (hrun : Loop.ReachesWhile (quotedHead k cc) (fun m => C k.env m.1) (cc.enter allocs, text)
        (l, text'))
      (hlast : C k.env l) (hret : k.head cc l = .error (.ret r)) : QuotedSession C r.cc text'

end Sfsexp.Spec
