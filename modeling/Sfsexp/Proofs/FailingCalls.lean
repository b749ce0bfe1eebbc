import Sfsexp.Proofs.Buffer
import Sfsexp.Spec.Denial

/-!
# The call with one request denied

Up to the denied request the call does what it does without the failure, and behind it no request
fails.
-/

namespace Sfsexp.Proofs

open Sfsexp

/-- Both grant the requests before `i`, and the first one those behind it. -/
structure Until (i : Nat) (a b : Nat → Bool) : Prop where
  before : ∀ n < i, a n = true ∧ b n = true
  behind : ∀ n, i < n → a n = true

/-- A piece of a round that does the same in both environments as long as it comes to no request
behind `i`, and is denied the request `i` or none. -/
def Numbered (i : Nat) (l : Locals) (x x' : Exec Locals) : Prop :=
  Post (fun l' => l.allocs ≤ l'.allocs ∧ (l'.allocs ≤ i → x' = .ok l'))
    (fun R => R.cc.error = .memory → l.allocs ≤ i) (fun _ => True) x

section Pieces

variable {env : Env} {b : Nat → Bool} {i : Nat} {l : Locals} {c : Byte}

lemma Numbered.bind {x x' : Exec Locals} {f f' : Locals → Exec Locals} (hx : Numbered i l x x')
    (hf : ∀ l₁, Numbered i l₁ (f l₁) (f' l₁)) : Numbered i l (x >>= f) (x' >>= f') := by
  refine Post.bind (hx.mono (fun _ h => h) fun _ h => h) ?_
  rintro l₁ ⟨hle, hsame⟩
  refine (hf l₁).mono ?_ ?_
  · rintro l₂ ⟨hle₂, hsame₂⟩
    refine ⟨Nat.le_trans hle hle₂, fun hi => ?_⟩
    rw [hsame (Nat.le_trans hle₂ hi), ok_bind]
    exact hsame₂ hi
  · intro R hR hmem
    exact Nat.le_trans hle (hR hmem)

/-- Locals that differ in what no request looks at. -/
lemma Numbered.at {m : Locals} {x x' : Exec Locals} (h : Numbered i m x x')
    (hm : m.allocs = l.allocs) : Numbered i l x x' := by
  unfold Numbered at h ⊢
  rwa [← hm]

lemma Until.granted (h : Until i env.alloc b) {n : Nat} (hn : n + 1 ≤ i) : b n = true :=
  (h.before n hn).2

end Pieces

end Sfsexp.Proofs
