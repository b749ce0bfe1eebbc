import Sfsexp.Model.NodePool

/-!
# Every node is in one place

A node is held by the client, lies in its cache, or was freed. Requests move nodes from one place to
another, and each keeps the count, unless `push` has to make a level and gets no memory for it: then
the cache is replaced by `NULL`.
-/

namespace Sfsexp.Proofs

open Sfsexp

/-- The nodes in the cache. -/
def cached (p : NodePool) : List Nat := (p.cache.map LevelStack.content).getD []

/-- Each node that was made is once in one of the places, and nothing else is in any. -/
def Conserved (p : NodePool) (held : List Nat) : Prop :=
  ∀ x, held.count x + (cached p).count x + p.freed.count x = if x < p.made then 1 else 0

/-- The cache gets its memory when a node is given back: a level for the node, unless one is in
reserve, or the stack has to be made and cannot be. -/
def LevelGranted (alloc : Nat → Bool) (n : Nat) (p : NodePool) : Prop :=
  match p.cache with
  | none => alloc n = true → alloc (n + 1) = true
  | some s => s.Full → alloc n = true

section Pool

variable {alloc : Nat → Bool} {n x : Nat} {p : NodePool} {held : List Nat}

/-- A new node has the first number that is not taken. -/
lemma conserved_malloc (h : Conserved p held) (granted : Bool) :
    Conserved (p.malloc granted).2 (held ++ (p.malloc granted).1.toList) := by
  cases granted with
  | false => simpa [NodePool.malloc] using h
  | true =>
    intro y
    have hy := h y
    have hmade : (p.malloc true).2.made = p.made + 1 := rfl
    have hcached : cached (p.malloc true).2 = cached p := rfl
    have hfreed : (p.malloc true).2.freed = p.freed := rfl
    have hx : (p.malloc true).1.toList = [p.made] := rfl
    rw [hmade, hcached, hfreed, hx, List.count_append, List.count_singleton]
    by_cases hyx : p.made = y
    · subst hyx
      simp only [Nat.lt_irrefl, if_false] at hy
      simp only [beq_self_eq_true, if_true, Nat.lt_succ_self]
      omega
    · rw [if_neg (by simpa using hyx)]
      have hlt : y < p.made + 1 ↔ y < p.made := by omega
      simp only [hlt]
      omega

lemma conserved_allocate (h : Conserved p held) :
    Conserved (p.allocate alloc n).2.1 (held ++ (p.allocate alloc n).1.toList) := by
  rw [NodePool.allocate]
  cases hcache : p.cache with
  | none =>
    have hempty : Conserved { p with cache := some .empty } held := by
      intro y
      have hy := h y
      rwa [cached, hcache] at hy
    dsimp only
    split_ifs
    · exact conserved_malloc hempty _
    · simpa using h
  | some s =>
    dsimp only
    cases hpop : s.pop with
    | none => exact conserved_malloc h _
    | some top =>
      obtain ⟨x, s'⟩ := top
      intro y
      have hy := h y
      have hcontent := LevelStack.content_pop hpop
      rw [cached, hcache] at hy
      simp only [Option.map_some, Option.getD_some, hcontent, List.count_append] at hy
      simp only [cached, Option.map_some, Option.getD_some, Option.toList_some, List.count_append]
      omega

lemma conserved_cleanup (h : Conserved p held) : Conserved p.cleanup held := by
  rw [NodePool.cleanup]
  cases hcache : p.cache with
  | none => exact h
  | some s =>
    intro y
    have hy := h y
    rw [cached, hcache] at hy
    simp only [Option.map_some, Option.getD_some] at hy
    simp only [cached, Option.map_none, Option.getD_none, List.count_nil, List.count_append,
      List.count_reverse]
    omega

/-- A node that the client holds is nowhere else. -/
lemma Conserved.held_once (h : Conserved p held) (hx : x ∈ held) :
    held.count x = 1 ∧ (cached p).count x = 0 ∧ p.freed.count x = 0 ∧ x < p.made := by
  have hcount := h x
  have hpos : 0 < held.count x := List.count_pos_iff.mpr hx
  split_ifs at hcount with hlt
  · omega
  · omega

/-- What the client gave back, counted where it went. -/
lemma count_erase_add (hx : x ∈ held) (y : Nat) :
    (held.erase x).count y + [x].count y = held.count y := by
  rw [(List.perm_cons_erase hx).count_eq y, ← List.count_append]
  exact (List.perm_append_singleton x (held.erase x)).count_eq y

/-- The node goes to the top of the cache, or the cache is gone and the node with it. -/
lemma conserved_pushCache {s : LevelStack Nat} (h : Conserved p held) (hx : x ∈ held)
    (hs : s.content = cached p) :
    Conserved (p.pushCache alloc n s x).1 (held.erase x) ↔ (s.Full → alloc n = true) := by
  obtain ⟨hone, hcached, hfreed, hmade⟩ := h.held_once hx
  cases hpush : s.push (alloc n) x with
  | none =>
    obtain ⟨hfull, hdenied⟩ := LevelStack.push_eq_none.mp hpush
    constructor
    · intro hkept
      have hnone : cached (p.pushCache alloc n s x).1 = [] := by
        simp [cached, NodePool.pushCache, hpush]
      have hcount := hkept x
      rw [hnone, List.count_erase_self] at hcount
      have hsame : (p.pushCache alloc n s x).1.freed = p.freed := rfl
      have hnodes : (p.pushCache alloc n s x).1.made = p.made := rfl
      rw [hsame, hnodes, if_pos hmade, List.count_nil] at hcount
      omega
    · intro hgranted
      rw [hgranted hfull] at hdenied
      cases hdenied
  | some s' =>
    have hcontent := LevelStack.content_push hpush
    have hnew : cached (p.pushCache alloc n s x).1 = cached p ++ [x] := by
      simp [cached, NodePool.pushCache, hpush, hcontent, hs]
    constructor
    · intro _ hfull
      by_contra hdenied
      have hnone : s.push (alloc n) x = none :=
        LevelStack.push_eq_none.mpr ⟨hfull, by simpa using hdenied⟩
      rw [hnone] at hpush
      cases hpush
    · intro _ y
      have hy := h y
      have hsame : (p.pushCache alloc n s x).1.freed = p.freed := rfl
      have hnodes : (p.pushCache alloc n s x).1.made = p.made := rfl
      have hmoved := count_erase_add hx y
      rw [hsame, hnodes, hnew, List.count_append]
      omega

/-- A node that is given back stays in one place exactly when the cache gets its level. -/
theorem conserved_deallocate (h : Conserved p held) (hx : x ∈ held) :
    Conserved (p.deallocate alloc n x).1 (held.erase x) ↔ LevelGranted alloc n p := by
  rw [NodePool.deallocate, LevelGranted]
  cases hcache : p.cache with
  | none =>
    have hnone : cached p = [] := by simp [cached, hcache]
    dsimp only
    split_ifs with hstack
    · rw [conserved_pushCache h hx (by rw [hnone]; rfl)]
      have hfull : (LevelStack.empty : LevelStack Nat).Full := rfl
      simp [hfull, hstack]
    · -- the stack cannot be made, and the node is freed
      refine iff_of_true ?_ fun hgranted => absurd hgranted hstack
      intro y
      have hy := h y
      have hmoved := count_erase_add hx y
      have hsame : cached { p with freed := p.freed ++ [x] } = cached p := rfl
      rw [← hcache, hsame, List.count_append]
      dsimp only
      omega
  | some s => exact conserved_pushCache h hx (by simp [cached, hcache])

end Pool

/-- Every node is in one place, in both pools. -/
def PoolClient.Conserved (c : PoolClient) : Prop :=
  Proofs.Conserved c.sexps c.heldSexps ∧ Proofs.Conserved c.pds c.heldPds

/-- A node that is given back finds a level in its cache. -/
def KeepsNode (alloc : Nat → Bool) (r : PoolRequest) (c : PoolClient) : Prop :=
  match r with
  | .sexpTDeallocate (some _) => LevelGranted alloc c.allocs c.sexps
  | .pdDeallocate _ => LevelGranted alloc c.allocs c.pds
  | _ => True

section Runs

variable {alloc : Nat → Bool} {junk : Nat → SexpFields} {c c' : PoolClient} {r : PoolRequest}

lemma sexpTAllocate_pools (w : Pools) :
    (w.sexpTAllocate alloc junk).1 = (w.sexps.allocate alloc w.allocs).1 ∧
      (w.sexpTAllocate alloc junk).2.sexps = (w.sexps.allocate alloc w.allocs).2.1 ∧
      (w.sexpTAllocate alloc junk).2.pds = w.pds := by
  rw [Pools.sexpTAllocate]
  dsimp only
  split_ifs <;> exact ⟨rfl, rfl, rfl⟩

lemma sexpTDeallocate_pools (w : Pools) (s : Nat) :
    (w.sexpTDeallocate alloc (some s)).sexps = (w.sexps.deallocate alloc w.allocs s).1 ∧
      (w.sexpTDeallocate alloc (some s)).pds = w.pds := by
  rw [Pools.sexpTDeallocate]
  dsimp only
  split_ifs <;> exact ⟨rfl, rfl⟩

/-- One request: it conserves the nodes exactly when a node that is given back finds its level. -/
lemma conserved_step (h : PoolClient.Conserved c) (hstep : c.step alloc junk r = some c') :
    PoolClient.Conserved c' ↔ KeepsNode alloc r c := by
  obtain ⟨hsexps, hpds⟩ := h
  cases r with
  | sexpTAllocate =>
    rw [PoolClient.step] at hstep
    injection hstep with hstep
    subst hstep
    obtain ⟨hx, hp, hother⟩ := @sexpTAllocate_pools alloc junk c.toPools
    have hkept : Conserved (c.toPools.sexpTAllocate alloc junk).2.sexps
        (c.heldSexps ++ (c.toPools.sexpTAllocate alloc junk).1.toList) := by
      rw [hx, hp]
      exact conserved_allocate hsexps
    have hsame : Conserved (c.toPools.sexpTAllocate alloc junk).2.pds c.heldPds := by
      rwa [hother]
    exact iff_of_true ⟨hkept, hsame⟩ trivial
  | sexpTDeallocate s =>
    cases s with
    | none =>
      obtain rfl := Option.some.inj hstep
      exact iff_of_true ⟨hsexps, hpds⟩ trivial
    | some s =>
      rw [PoolClient.step] at hstep
      split_ifs at hstep with hheld
      obtain rfl := Option.some.inj hstep
      obtain ⟨hp, hother⟩ := @sexpTDeallocate_pools alloc c.toPools s
      rw [KeepsNode, ← conserved_deallocate hsexps hheld, PoolClient.Conserved, hp, hother]
      exact and_iff_left hpds
  | pdAllocate =>
    obtain rfl := Option.some.inj hstep
    exact iff_of_true ⟨hsexps, conserved_allocate hpds⟩ trivial
  | pdDeallocate p =>
    rw [PoolClient.step] at hstep
    split_ifs at hstep with hheld
    obtain rfl := Option.some.inj hstep
    rw [KeepsNode, ← conserved_deallocate hpds hheld]
    exact and_iff_right hsexps
  | sexpCleanup =>
    obtain rfl := Option.some.inj hstep
    exact iff_of_true ⟨conserved_cleanup hsexps, conserved_cleanup hpds⟩ trivial
  | setFields s f =>
    rw [PoolClient.step] at hstep
    split_ifs at hstep with hheld
    obtain rfl := Option.some.inj hstep
    exact iff_of_true ⟨hsexps, hpds⟩ trivial

/-- In every run in which each node that is given back finds its level, every node is in one place,
and the first request in which one does not find it loses a node. -/
theorem pool_conservation (hrun : PoolRun alloc junk (KeepsNode alloc) c) :
    PoolClient.Conserved c ∧ ∀ r c', c.step alloc junk r = some c' →
      (PoolClient.Conserved c' ↔ KeepsNode alloc r c) := by
  have hkept : PoolClient.Conserved c := by
    induction hrun with
    | start errno fields => exact ⟨fun x => by simp [cached, Pools.start],
        fun x => by simp [cached, Pools.start]⟩
    | request _ hr hstep ih => exact (conserved_step ih hstep).mpr hr
  exact ⟨hkept, fun r c' hstep => conserved_step hkept hstep⟩

end Runs

/-- The requests of a client with nothing in its hands, one after the other. -/
def serve (alloc : Nat → Bool) (rs : List PoolRequest) : Option PoolClient :=
  rs.foldlM (fun c r => c.step alloc (fun _ => ⟨false, none, none, none⟩) r)
    ⟨.start .ok fun _ => ⟨false, none, none, none⟩, [], []⟩

/-- A node is obtained and given back. -/
theorem pool_conservation_recycled :
    ∃ c, serve (fun _ => true) [.sexpTAllocate, .sexpTDeallocate (some 0)] = some c ∧
      PoolClient.Conserved c ∧ ∀ r c',
        c.step (fun _ => true) (fun _ => ⟨false, none, none, none⟩) r = some c' →
          (PoolClient.Conserved c' ↔ KeepsNode (fun _ => true) r c) :=
  ⟨_, rfl, pool_conservation
    (.request (r := .sexpTDeallocate (some 0))
      (.request (r := .sexpTAllocate) (.start .ok fun _ => ⟨false, none, none, none⟩) trivial rfl)
      (fun _ => rfl) rfl)⟩

/-- Two nodes are given back, and the second finds neither a level in reserve nor memory for one:
both are lost. -/
theorem failed_push_loses_cache :
    ∃ c, serve (fun n => n != 4)
        [.sexpTAllocate, .sexpTAllocate, .sexpTDeallocate (some 0), .sexpTDeallocate (some 1)] =
          some c ∧
      c.sexps.made = 2 ∧ c.heldSexps = [] ∧ cached c.sexps = [] ∧ c.sexps.freed = [] ∧
        ¬ PoolClient.Conserved c := by
  refine ⟨_, rfl, rfl, rfl, rfl, rfl, ?_⟩
  intro h
  exact absurd (h.1 0) (by decide)

end Sfsexp.Proofs
