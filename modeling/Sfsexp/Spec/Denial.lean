import Sfsexp.Model.Driver

/-!
# Calling again after an allocation failed

A call is let run to one of its loop heads, and there one request of the round is denied. The client
calls again, with the same buffer and the continuation that the failed call returned.
-/

namespace Sfsexp

/-- What a client sees of a call: the error of the continuation, `sexp_errno` and the trees. -/
def serviceOf (R : Return) : ErrCode × ErrCode × List Tree :=
  (R.cc.error, R.errno, forest R.cc.lastSexp)

end Sfsexp
