import Sfsexp.Proofs.Buffer

/-!
# Rounds on the bytes ahead

One round of `cparse_sexp` on the byte at its cursor, and runs that are put together from such
rounds.
-/

namespace Sfsexp.Proofs

open Sfsexp

/-- The bytes `u` are what is left of the input from the place `t` on, with a NUL behind them. -/
structure Rest (env : Env) (t : Nat) (u : List Byte) : Prop where
  bytes : ∃ tail, env.buf.drop t = u ++ nul :: tail
  len : env.len = t + u.length

/-- The run from `l` comes to a head with `Q` that has the bytes `u` ahead. -/
def Gets (env : Env) (u : List Byte) (Q : Locals → Prop) (l : Locals) : Prop :=
  ∃ l', Loop.Reaches (cparseHead env) l l' ∧ Rest env l'.t u ∧ Q l'

section Rounds

variable {env : Env} {l : Locals} {c : Byte} {u v : List Byte} {t : Nat} {P Q : Locals → Prop}

lemma Rest.get (h : Rest env t (c :: u)) : env.buf[t]? = some c := by
  obtain ⟨tail, hbytes⟩ := h.bytes
  rw [← List.head?_drop, hbytes]
  rfl

lemma Rest.get_end (h : Rest env t []) : env.buf[t]? = some nul := by
  obtain ⟨tail, hbytes⟩ := h.bytes
  rw [← List.head?_drop, hbytes]
  rfl

lemma Rest.tail (h : Rest env t (c :: u)) : Rest env (t + 1) u := by
  obtain ⟨tail, hbytes⟩ := h.bytes
  have hlen := h.len
  rw [List.length_cons] at hlen
  refine ⟨⟨tail, ?_⟩, by omega⟩
  rw [← List.drop_drop, hbytes]
  rfl

/-- A round on the byte at the cursor. -/
lemma head_of_rest (h : Rest env l.t (c :: u)) (hc : c ≠ nul) (h15 : l.state ≠ .s15) :
    cparseHead env l = switch env c l := by
  have hlen := h.len
  rw [List.length_cons] at hlen
  have hmore : ¬ (c = nul ∨ l.t = env.len) := by
    rintro (hnul | ht)
    · exact hc hnul
    · omega
  rw [cparseHead, if_neg h15, Env.read, h.get]
  exact if_neg hmore

/-- A round in the middle of a blob, or at its end. -/
lemma head_of_blob (h : Rest env l.t (c :: u)) (h15 : l.state = .s15) :
    cparseHead env l = state15 env l := by
  have hlen := h.len
  rw [List.length_cons] at hlen
  rw [cparseHead, if_pos h15, if_neg (by omega)]

/-- The end of the input. -/
lemma head_of_rest_nil (h : Rest env l.t []) (h15 : l.state ≠ .s15) :
    cparseHead env l = .error (finish env l) := by
  rw [cparseHead, if_neg h15, Env.read, h.get_end]
  dsimp only
  rw [ok_bind, if_pos (.inl rfl)]

/-- At the end of the input inside a list, or with nothing read, the call asks for more. -/
lemma finish_open (h : Rest env l.t []) (hd : ¬ (l.depth = 0 ∧ 0 < l.elts)) :
    ∃ R : Return, finish env l = .ret R ∧ R.cc.error = .incomplete ∧ R.cc.lastSexp = [] ∧
      R.cc.lastPos = none := by
  rw [finish, if_neg hd, h.get_end]
  exact ⟨_, rfl, rfl, rfl, rfl⟩

lemma Gets.here (h : Rest env l.t u) (hQ : Q l) : Gets env u Q l := ⟨l, .refl, h, hQ⟩

lemma Gets.step {l' : Locals} (h : cparseHead env l = .ok l') (hg : Gets env u Q l') :
    Gets env u Q l := by
  obtain ⟨m, hreach, hrest, hQ⟩ := hg
  exact ⟨m, .head h hreach, hrest, hQ⟩

lemma Gets.trans (h : Gets env u P l) (hP : ∀ m, Rest env m.t u → P m → Gets env v Q m) :
    Gets env v Q l := by
  obtain ⟨m, hreach, hrest, hm⟩ := h
  obtain ⟨m', hreach', hrest', hQ⟩ := hP m hrest hm
  exact ⟨m', hreach.trans hreach', hrest', hQ⟩

lemma Gets.mono (h : Gets env u P l) (hPQ : ∀ m, P m → Q m) : Gets env u Q l := by
  obtain ⟨m, hreach, hrest, hm⟩ := h
  exact ⟨m, hreach, hrest, hPQ m hm⟩

end Rounds

end Sfsexp.Proofs
