import Mathlib.Data.List.Basic

/-!
# Machines that are fed one letter at a time

A transducer takes a letter, puts out finitely many values and either goes on in a new state or
stops for a reason of type `ε`. Feeding it a word letter by letter does not depend on how the
word is cut into pieces.
-/

namespace Feed

variable {σ α τ ε : Type}

/-- The values put out while a word is read, and the state or the stop it ends with. -/
def feedAll (feed : σ → α → List τ × Except ε σ) : σ → List α → List τ × Except ε σ
  | s, [] => ([], .ok s)
  | s, a :: w =>
    match feed s a with
    | (out, .ok s') => (out ++ (feedAll feed s' w).1, (feedAll feed s' w).2)
    | (out, .error e) => (out, .error e)

/-- Goes on reading after a piece, unless the piece ended in a stop. -/
def resume (feed : σ → α → List τ × Except ε σ) (r : List τ × Except ε σ) (w : List α) :
    List τ × Except ε σ :=
  match r with
  | (out, .ok s) => (out ++ (feedAll feed s w).1, (feedAll feed s w).2)
  | (out, .error e) => (out, .error e)

variable {feed : σ → α → List τ × Except ε σ}

@[simp] lemma feedAll_nil (s : σ) : feedAll feed s [] = ([], .ok s) := rfl

lemma feedAll_cons (s : σ) (a : α) (w : List α) :
    feedAll feed s (a :: w) = resume feed (feed s a) w := by
  rw [feedAll]
  rcases feed s a with ⟨out, _ | s'⟩ <;> rfl

lemma feedAll_singleton (s : σ) (a : α) : feedAll feed s [a] = feed s a := by
  rw [feedAll_cons]
  rcases feed s a with ⟨out, _ | s'⟩ <;> simp [resume]

lemma feedAll_cons_ok {s s' : σ} {a : α} {out : List τ} (h : feed s a = (out, .ok s'))
    (w : List α) :
    feedAll feed s (a :: w) = (out ++ (feedAll feed s' w).1, (feedAll feed s' w).2) := by
  rw [feedAll, h]

lemma feedAll_cons_error {s : σ} {a : α} {out : List τ} {e : ε} (h : feed s a = (out, .error e))
    (w : List α) : feedAll feed s (a :: w) = (out, .error e) := by
  rw [feedAll, h]

/-- Reading a word is reading its first part and going on with the second. -/
theorem feedAll_append (s : σ) (v w : List α) :
    feedAll feed s (v ++ w) = resume feed (feedAll feed s v) w := by
  induction v generalizing s with
  | nil => simp [resume]
  | cons a v ih =>
    rcases h : feed s a with ⟨out, e | s'⟩
    · rw [List.cons_append, feedAll_cons_error h, feedAll_cons_error h, resume]
    · rw [List.cons_append, feedAll_cons_ok h, feedAll_cons_ok h, ih]
      rcases feedAll feed s' v with ⟨out', e | s''⟩ <;> simp [resume]

/-- Going on twice is going on with both pieces. -/
lemma resume_resume (r : List τ × Except ε σ) (v w : List α) :
    resume feed (resume feed r v) w = resume feed r (v ++ w) := by
  rcases r with ⟨out, e | s⟩
  · rfl
  · rw [resume, resume, feedAll_append]
    rcases feedAll feed s v with ⟨out', e | s'⟩ <;> simp [resume]

lemma resume_nil (r : List τ × Except ε σ) : resume feed r [] = r := by
  rcases r with ⟨out, e | s⟩ <;> simp [resume]

end Feed
