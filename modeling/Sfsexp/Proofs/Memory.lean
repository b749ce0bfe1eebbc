import Mathlib.Data.List.Nodup
import Sfsexp.Model.Memory

/-!
# The counter of the limiter is exact

A test that wraps around can let a request pass, but only one that the system allocator does not
serve, so the counter is only ever moved by sums that fit.
-/

namespace Sfsexp.Proofs

open Sfsexp

/-- The counter is the number of live bytes and stays below the limit. -/
structure Exact (m : Ledger) : Prop where
  used : m.usedMemory.toNat = m.live.total
  limit : m.usedMemory ≤ m.maxMemory
  nodup : (m.live.map (·.1)).Nodup

section Blocks

@[simp] lemma total_cons (p n : Nat) (live : Blocks) :
    Blocks.total ((p, n) :: live) = n + live.total := rfl

variable {m : Ledger} {live : Blocks} {p n : Nat}

/-- The block at `p` is taken out. -/
lemma perm_without (hnodup : (live.map (·.1)).Nodup) (hp : (p, n) ∈ live) :
    live.Perm ((p, n) :: live.without p) := by
  rw [Blocks.without]
  induction live with
  | nil => cases hp
  | cons b rest ih =>
    obtain ⟨q, k⟩ := b
    obtain ⟨hq, hrest⟩ : q ∉ rest.map (·.1) ∧ (rest.map (·.1)).Nodup := List.nodup_cons.mp hnodup
    by_cases hqp : q = p
    · subst hqp
      have hnot : (q, n) ∉ rest := fun hin => hq (List.mem_map_of_mem hin)
      obtain heq := (List.mem_cons.mp hp).resolve_right hnot
      rw [heq, List.eraseP_cons_of_pos (by simp)]
    · have hin : (p, n) ∈ rest := by
        refine (List.mem_cons.mp hp).resolve_left fun heq => hqp ?_
        exact (Prod.mk.inj heq).1.symm
      rw [List.eraseP_cons_of_neg (by simpa using hqp)]
      exact ((ih hrest hin).cons _).trans (List.Perm.swap _ _ _)

lemma total_without (h : Exact m) (hp : (p, n) ∈ m.live) :
    m.live.total = n + (m.live.without p).total := by
  have hsum := ((perm_without h.nodup hp).map (·.2)).sum_nat
  rwa [List.map_cons, List.sum_cons] at hsum

lemma nodup_without (h : Exact m) : ((m.live.without p).map (·.1)).Nodup :=
  h.nodup.sublist ((List.eraseP_sublist).map _)

end Blocks

section Calls

variable {m : Ledger} {size count oldsize newsize : UInt64} {given : Option Nat} {p : Nat}

/-- A request keeps the counter exact when the sum does not wrap around. -/
lemma exact_request (h : Exact m) {amount : UInt64} {served : Nat → Blocks}
    (hserved : ∀ p, given = some p →
      (m.usedMemory + amount).toNat = (served p).total ∧ ((served p).map (·.1)).Nodup) :
    Exact (m.request amount given served).2 := by
  unfold Ledger.request
  split_ifs with hpass
  · exact ⟨h.used, h.limit, h.nodup⟩
  · cases given with
    | none => exact h
    | some p =>
      obtain ⟨hsum, hnodup⟩ := hserved p rfl
      exact ⟨hsum, UInt64.not_lt.mp hpass, hnodup⟩

/-- A request that the test or the system allocator turns down. -/
lemma request_null {amount : UInt64} {served : Nat → Blocks}
    (h : (m.request amount given served).1 = none) :
    ∃ e, (m.request amount given served).2 = { m with errno := e } := by
  unfold Ledger.request at h ⊢
  split_ifs at h ⊢
  · exact ⟨_, rfl⟩
  · cases given with
    | none => exact ⟨m.errno, rfl⟩
    | some p => cases h

lemma exact_setSexpMaxMemory (h : Exact m) : Exact (m.setSexpMaxMemory newsize).2 := by
  rw [Ledger.setSexpMaxMemory]
  split_ifs with hpos hlt
  · exact ⟨h.used, h.limit, h.nodup⟩
  · exact ⟨h.used, UInt64.not_lt.mp hlt, h.nodup⟩
  · exact ⟨h.used, h.limit, h.nodup⟩

lemma exact_sexpMalloc (h : Exact m) (hgiven : m.Honest (.sexpMalloc size) given) :
    Exact (m.sexpMalloc size given).2 := by
  refine exact_request h fun p hp => ?_
  obtain ⟨hfresh, hfits⟩ := hgiven p hp
  rw [Ledger.totalAfter, ← h.used] at hfits
  refine ⟨?_, List.nodup_cons.mpr ⟨hfresh, h.nodup⟩⟩
  rw [UInt64.toNat_add, Nat.mod_eq_of_lt hfits, h.used, total_cons, Nat.add_comm]

lemma exact_sexpCalloc (h : Exact m) (hgiven : m.Honest (.sexpCalloc count size) given) :
    Exact (m.sexpCalloc count size given).2 := by
  refine exact_request h fun p hp => ?_
  obtain ⟨hfresh, hfits⟩ := hgiven p hp
  rw [Ledger.totalAfter, ← h.used, Nat.mul_comm] at hfits
  have hproduct : (size * count).toNat = size.toNat * count.toNat := by
    rw [UInt64.toNat_mul, Nat.mod_eq_of_lt (by omega)]
  refine ⟨?_, List.nodup_cons.mpr ⟨hfresh, h.nodup⟩⟩
  rw [UInt64.toNat_add, hproduct, Nat.mod_eq_of_lt hfits, h.used, total_cons, Nat.add_comm,
    Nat.mul_comm]

/-- A block is never larger than the counter. -/
lemma size_le_used (h : Exact m) (hp : (p, size.toNat) ∈ m.live) : ¬ m.usedMemory < size := by
  have hsum := total_without h hp
  rw [UInt64.lt_iff_toNat_lt, h.used]
  omega

lemma exact_sexpFree (h : Exact m) (hp : (p, size.toNat) ∈ m.live) :
    Exact (m.sexpFree p size).2 := by
  have hsum := total_without h hp
  have hle := size_le_used h hp
  have hused := h.used
  have hlimit := UInt64.le_iff_toNat_le.mp h.limit
  have hsub : (m.usedMemory - size).toNat = m.usedMemory.toNat - size.toNat :=
    UInt64.toNat_sub_of_le _ _ (UInt64.not_lt.mp hle)
  rw [Ledger.sexpFree, if_neg hle]
  refine ⟨?_, ?_, nodup_without h⟩
  · change (m.usedMemory - size).toNat = (m.live.without p).total
    omega
  · rw [UInt64.le_iff_toNat_le]
    change (m.usedMemory - size).toNat ≤ m.maxMemory.toNat
    omega

/-- Growing or shrinking, the difference of the sizes may wrap around; the sum does not. -/
lemma exact_sexpRealloc (h : Exact m) (hp : (p, oldsize.toNat) ∈ m.live)
    (hgiven : m.Honest (.sexpRealloc p size oldsize) given) :
    Exact (m.sexpRealloc p size oldsize given).2 := by
  refine exact_request h fun q hq => ?_
  obtain ⟨hfresh, hfits⟩ := hgiven q hq
  have hsum := total_without h hp
  have hused := h.used
  rw [Ledger.totalAfter] at hfits
  have hwrap : (m.usedMemory + (size - oldsize)).toNat =
      m.usedMemory.toNat - oldsize.toNat + size.toNat := by
    have hold := oldsize.toNat_lt
    rw [UInt64.toNat_add, UInt64.toNat_sub]
    omega
  refine ⟨?_, List.nodup_cons.mpr ⟨hfresh, nodup_without h⟩⟩
  rw [hwrap, total_cons]
  omega

lemma exact_call (h : Exact m) {r : MemoryCall} (hr : Promised r m.live) (hgiven : m.Honest r given) :
    Exact (m.call r given).2 := by
  cases r with
  | setSexpMaxMemory newsize => exact exact_setSexpMaxMemory h
  | sexpMalloc size => exact exact_sexpMalloc h hgiven
  | sexpCalloc count size => exact exact_sexpCalloc h hgiven
  | sexpFree p size => exact exact_sexpFree h hr
  | sexpRealloc p size oldsize => exact exact_sexpRealloc h hr.2 hgiven

/-- The calls that return `NULL`, and those of `set_sexp_max_memory` that report an error. -/
def Refused (r : MemoryCall) (given : Option Nat) (m : Ledger) : Prop :=
  match r with
  | .setSexpMaxMemory newsize => newsize = 0 ∨ newsize < m.usedMemory
  | .sexpFree _ _ => False
  | _ => (m.call r given).1 = .pointer none

/-- A call that is refused changes nothing but `sexp_errno`. -/
lemma same_of_refused {r : MemoryCall} (h : Refused r given m) :
    ∃ e, (m.call r given).2 = { m with errno := e } := by
  cases r with
  | setSexpMaxMemory newsize =>
    refine ⟨.badParam, ?_⟩
    change (m.setSexpMaxMemory newsize).2 = _
    rw [Ledger.setSexpMaxMemory]
    split_ifs with hpos hlt
    · rfl
    · rcases h with rfl | h
      · exact absurd hpos (by decide)
      · exact absurd h hlt
    · rfl
  | sexpMalloc size => exact request_null (MemoryAnswer.pointer.inj h)
  | sexpCalloc count size => exact request_null (MemoryAnswer.pointer.inj h)
  | sexpFree p size => exact h.elim
  | sexpRealloc p size oldsize => exact request_null (MemoryAnswer.pointer.inj h)

/-- The pointers that a request hands out, and the blocks behind it. -/
lemma live_request {amount : UInt64} {served : Nat → Blocks} :
    (m.request amount given served).2.live =
      (m.request amount given served).1.elim m.live served := by
  unfold Ledger.request
  split_ifs
  · rfl
  · cases given <;> rfl

/-- What a client gets and gives up is what the system allocator keeps. -/
lemma live_call (r : MemoryCall) :
    (m.call r given).2.live = heldAfter r (m.call r given).1 m.live := by
  cases r with
  | setSexpMaxMemory newsize =>
    change (m.setSexpMaxMemory newsize).2.live = m.live
    rw [Ledger.setSexpMaxMemory]
    split_ifs <;> rfl
  | sexpMalloc size =>
    refine (live_request (m := m)).trans ?_
    change _ = heldAfter (.sexpMalloc size) (.pointer (m.sexpMalloc size given).1) m.live
    rw [Ledger.sexpMalloc]
    cases (m.request size given fun p => (p, size.toNat) :: m.live).1 <;> rfl
  | sexpCalloc count size =>
    refine (live_request (m := m)).trans ?_
    change _ = heldAfter (.sexpCalloc count size) (.pointer (m.sexpCalloc count size given).1) m.live
    rw [Ledger.sexpCalloc]
    cases (m.request (size * count) given _).1 <;> rfl
  | sexpFree p size =>
    change (m.sexpFree p size).2.live = m.live.without p
    rw [Ledger.sexpFree]
    split_ifs <;> rfl
  | sexpRealloc p size oldsize =>
    refine (live_request (m := m)).trans ?_
    change _ = heldAfter (.sexpRealloc p size oldsize)
      (.pointer (m.sexpRealloc p size oldsize given).1) m.live
    rw [Ledger.sexpRealloc]
    cases (m.request (size - oldsize) given _).1 <;> rfl

end Calls

/-- In every state the counter is the number of bytes that the client holds, by the pointers it was
given and gave back, and stays below the limit; what is refused changes nothing, and `sexp_free` never
finds more to free than there is. -/
theorem used_memory_exact {held : Blocks} {m : Ledger} (h : MemoryRun held m) :
    m.live = held ∧ m.usedMemory.toNat = held.total ∧ m.usedMemory ≤ m.maxMemory ∧
      ∀ r given, Promised r held → m.Honest r given →
        (Refused r given m →
          (∃ e, (m.call r given).2 = { m with errno := e }) ∧
            heldAfter r (m.call r given).1 held = held) ∧
          ∀ text, (m.call r given).1 ≠ .freed (some text) := by
  obtain ⟨hexact, rfl⟩ : Exact m ∧ m.live = held := by
    induction h with
    | start errno => exact ⟨⟨rfl, UInt64.zero_le, List.nodup_nil⟩, rfl⟩
    | @call held m r given _ hr hgiven ih =>
      obtain ⟨hexact, rfl⟩ := ih
      exact ⟨exact_call hexact hr hgiven, live_call r⟩
  refine ⟨rfl, hexact.used, hexact.limit, fun r given hr _ => ⟨fun hrefused => ?_, fun text => ?_⟩⟩
  · obtain ⟨e, hsame⟩ := same_of_refused hrefused
    refine ⟨⟨e, hsame⟩, ?_⟩
    rw [← live_call, hsame]
  · cases r with
    | sexpFree p size =>
      change MemoryAnswer.freed (m.sexpFree p size).1 ≠ _
      rw [Ledger.sexpFree, if_neg (size_le_used hexact hr)]
      simp
    | _ => exact MemoryAnswer.noConfusion

/-- Of two blocks the second, of ten bytes, shrinks to four by a difference that wraps around, and
then the first is freed. -/
theorem used_memory_exact_shrunk :
    ∃ m, MemoryRun [(2, 4)] m ∧ m.live = [(2, 4)] ∧ m.usedMemory.toNat = 4 ∧
      (m.call (.sexpFree 2 4) none).1 ≠ .freed (some "ERROR: sexp_free called too many times!\n") := by
  have hfirst := @MemoryRun.call _ _ (.sexpCalloc 3 8) (some 0) (.start .ok) trivial
    (by rintro p ⟨⟩; decide)
  have hsecond := @MemoryRun.call _ _ (.sexpMalloc 10) (some 1) hfirst trivial
    (by rintro p ⟨⟩; decide)
  have hshrunk := @MemoryRun.call _ _ (.sexpRealloc 1 4 10) (some 2) hsecond (by decide)
    (by rintro p ⟨⟩; decide)
  have hrun := @MemoryRun.call _ _ (.sexpFree 0 24) none hshrunk (by decide) (by rintro p ⟨⟩)
  obtain ⟨hlive, hused, -, hcalls⟩ := used_memory_exact hrun
  exact ⟨_, hrun, hlive, hused, (hcalls (.sexpFree 2 4) none (by decide) fun p hp => by cases hp).2 _⟩

end Sfsexp.Proofs
