import Sfsexp.Model.Client

/-!
# What can be seen of a parser's data

The cells of an atom buffer behind its used part, the sizes of the buffers and the levels the stack
keeps in reserve are left to the allocation. The visible part of an expression, of the locals and of
a continuation is what remains without them.
-/

namespace Sfsexp

mutual
/-- The expression with each atom in a buffer of its used size. -/
def Sexp.visible : Sexp → Sexp
  | .value aty val _ valUsed => .value aty (val.take valUsed) valUsed valUsed
  | .blob bindata binlength => .blob bindata binlength
  | .list elems => .list (visibleAll elems)

def visibleAll : List Sexp → List Sexp
  | [] => []
  | x :: xs => x.visible :: visibleAll xs
end

def Faststack.visible (s : Faststack) : Faststack :=
  { levels := s.levels.map visibleAll, spare := 0, height := s.height }

def Regs.visible (l : Regs) : Regs :=
  { l with stack := l.stack.visible, val := l.val.take l.valUsed, valAllocated := l.valUsed }

/-- The allocations a call has asked for so far are not visible either. -/
def Locals.visible (l : Locals) : Locals :=
  { l with toRegs := l.toRegs.visible, sx := visibleAll l.sx, allocs := 0 }

def Pcont.visible (cc : Pcont) : Pcont :=
  { cc with toRegs := cc.toRegs.visible, lastSexp := visibleAll cc.lastSexp }

def Return.visible (r : Return) : Return := { r with cc := r.cc.visible }

def Stop.visible : Stop → Stop
  | .ret r => .ret r.visible
  | .fault f => .fault f

def Result.visible : Result → Result
  | .ret r => .ret r.visible
  | .null errno => .null errno
  | .fault f => .fault f
  | .diverges => .diverges

def CallTrace.visible (k : CallTrace) : CallTrace :=
  { heads := k.heads.map Locals.visible, outcome := k.outcome.visible }

@[simp] lemma visibleAll_append (xs ys : List Sexp) :
    visibleAll (xs ++ ys) = visibleAll xs ++ visibleAll ys := by
  induction xs with
  | nil => rfl
  | cons x xs ih => simp [visibleAll, ih]

end Sfsexp
