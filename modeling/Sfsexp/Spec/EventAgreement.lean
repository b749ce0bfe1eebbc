import Sfsexp.Model.Calls

/-!
# What a client hears from the two parsers

What a sequence of calls on one continuation returns, and the rounds of the tree-building parser
in which the event-only parser takes over another value of `squoted`.
-/

namespace Sfsexp.Spec

open Sfsexp

/-- What the calls `ks` on a continuation return, up to a `SEXP_ERR_BADFORM`; `none` when a call is
undefined. -/
def heardIn : List Call → Pcont → Option (List Return)
  | [], _ => some []
  | k :: ks, cc =>
    match cparseSexp k.setup (some k.buf) k.len (some cc) k.errno with
    | .ret R => if R.cc.error = .badForm then some [R] else (heardIn ks R.cc).map (R :: ·)
    | _ => none

/-- Two returns that a client whose handlers are called cannot tell apart. -/
structure HeardAlike (R R' : Return) : Prop where
  events : R'.events = R.events
  cursor : R'.cursor = R.cursor
  lastPos : R'.cc.lastPos = R.cc.lastPos
  badForm : R'.cc.error = .badForm ↔ R.cc.error = .badForm

/-- The quote that ends a string is read: it is the byte at the cursor, or the one behind an escape
pair. -/
def ClosesString (env : Env) (l : Locals) : Prop :=
  l.state = .s5 ∧ ∃ c ∈ env.buf[l.t]?,
    if (l.esc && isEscapable c) = true then env.buf[l.t + 1]? = some dquote else c = dquote

instance (env : Env) (l : Locals) : Decidable (ClosesString env l) :=
  inferInstanceAs (Decidable (_ ∧ _))

/-- The head of a round that treats `squoted` the same way in both parsers, in a call that was entered
with the value `entered` of it: no single-quoted string ends inside a list, and a call that was
entered in the middle of a single-quoted token does not end a list. -/
structure Unmixed (entered : Bool) (env : Env) (l : Locals) : Prop where
  string : ClosesString env l → l.squoted = true → l.depth = 0
  list : l.state = .s3 → l.depth = 1 → l.squoted = entered

instance (entered : Bool) (env : Env) (l : Locals) : Decidable (Unmixed entered env l) :=
  decidable_of_iff ((ClosesString env l → l.squoted = true → l.depth = 0) ∧
      (l.state = .s3 → l.depth = 1 → l.squoted = entered))
    ⟨fun h => ⟨h.1, h.2⟩, fun h => ⟨h.string, h.list⟩⟩

/-- All heads of the calls are unmixed. -/
def AllUnmixed : List Call → Pcont → Prop
  | [], _ => True
  | k :: ks, cc =>
    (∀ l, Loop.Reaches (cparseHead k.env) (cc.enter 0) l → Unmixed cc.squoted k.env l) ∧
      ∀ R, cparseSexp k.setup (some k.buf) k.len (some cc) k.errno = .ret R →
        R.cc.error ≠ .badForm → AllUnmixed ks R.cc

end Sfsexp.Spec
