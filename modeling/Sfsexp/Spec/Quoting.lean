import Sfsexp.Spec.Elements

/-!
# Texts that an apostrophe quotes as a whole

The parens of a text, without those in double quotes and those behind a backslash. Comments are not
looked for.
-/

namespace Sfsexp.Spec

/-- Whether the bytes so far end inside double quotes and with a backslash, and their open parens. -/
structure Marks where
  inString : Bool
  esc : Bool
  depth : Int

def Marks.start : Marks := ⟨false, false, 0⟩

def Marks.push (m : Marks) (c : Byte) : Marks where
  inString := m.inString ^^ (c == dquote && !m.esc)
  esc := c == backslash
  depth := parensAfter m.inString m.esc m.depth c

/-- The parens that are open behind the text. -/
def openParens (w : List Byte) : Int := (w.foldl Marks.push .start).depth

/-- The paren that the text starts with is closed by its last byte and not before. -/
def Enclosed (w : List Byte) : Prop :=
  openParens w = 0 ∧ ∀ p, p <+: w → p ≠ [] → p ≠ w → 0 < openParens p

end Sfsexp.Spec
