import Sfsexp.Model.Driver
import Sfsexp.Proofs.Simulation

/-!
# How the input is cut does not matter

The client gets the trees that the reader puts out on the whole input, however the input is cut,
as long as no chunk ends behind an escape pair inside double quotes.
-/

namespace Sfsexp.Proofs

open Sfsexp Spec

section Output

variable (r : Reader) (c : Byte)

/-- A byte completes at most one top-level expression. -/
lemma finishAtom_length (aty : AtomT) : (r.finishAtom aty).1.length ≤ 1 := by
  unfold Reader.finishAtom
  split <;> simp

lemma escape_length : (r.escape c).1.length ≤ 1 := by
  unfold Reader.escape
  split <;> simp

lemma feedGap_length : (r.feedGap c).1.length ≤ 1 := by
  unfold Reader.feedGap
  split_ifs <;> try simp
  split <;> simp

lemma feedGap_start (hlevels : r.levels = []) : (r.feedGap c).1 = [] := by
  unfold Reader.feedGap
  split_ifs <;> try rfl
  rw [hlevels]

lemma feedBare_length : (r.feedBare c).1.length ≤ 1 := by
  unfold Reader.feedBare
  generalize (if r.squoted then AtomT.squote else AtomT.basic) = aty
  split_ifs
  · exact escape_length _ _
  · simp
  · unfold Reader.finishAtom
    cases hl : r.levels with
    | nil =>
      have hnone := feedGap_start Reader.start c rfl
      simp [hnone]
    | cons T Ls =>
      simp only [List.nil_append]
      exact feedGap_length _ _

lemma feedQuotedList_length : (r.feedQuotedList c).1.length ≤ 1 := by
  unfold Reader.feedQuotedList
  split_ifs <;> try simp
  exact finishAtom_length _ _

lemma feed_length : (r.feed c).1.length ≤ 1 := by
  unfold Reader.feed Reader.feedLex
  split
  · exact feedGap_length _ _
  · simp
  · exact feedBare_length _ _
  · unfold Reader.feedQuoted
    split_ifs
    · exact escape_length _ _
    · exact finishAtom_length _ _
    · exact finishAtom_length _ _
    · simp
  · unfold Reader.feedTick
    split_ifs
    · simp
    · exact feedQuotedList_length _ _
    · exact feedBare_length _ _
  · exact feedQuotedList_length _ _
  · unfold Reader.feedQuotedString
    split_ifs <;> simp

lemma scan_length (w : List Byte) : (scan r w).1.length ≤ w.length := by
  induction w generalizing r with
  | nil => simp
  | cons c w ih =>
    have hone := feed_length r c
    rw [scan_cons]
    rcases hfeed : r.feed c with ⟨out, e | r'⟩
    · rw [hfeed] at hone
      rw [scanOn_error]
      simp at hone ⊢
      omega
    · rw [hfeed] at hone
      have htail := ih r'
      rw [scanOn_ok]
      simp at hone ⊢
      omega

end Output

/-- No chunk ends behind an escape pair inside double quotes, and no escaped byte is stray, up to
the first closing paren without its opening one. -/
def Clean : Reader → List (List Byte) → Prop
  | _, [] => True
  | r, chunk :: rest =>
    match (scan r chunk).2 with
    | .ok r' => r'.pair = false ∧ Clean r' rest
    | .error e => e = .badForm

/-- The error that the client ends with. -/
def errorOf : Except ReadErr Reader → ErrCode
  | .ok _ => .incomplete
  | .error _ => .badForm

/-- What the client collects: the outputs `q` of the reader. -/
def Collects (q : Outcome) (o : Option (List Return)) : Prop :=
  ∃ rs, o = some rs ∧ treesOf rs = q.1 ∧ finalError rs = some (errorOf q.2)

section Drive

variable {g : Setup} {chunk : List Byte} {rest : List (List Byte)}

lemma collects_cons {R : Return} {q : Outcome} {o : Option (List Return)} {out : List Tree}
    (hR : forest R.cc.lastSexp = out) (h : Collects q o) :
    Collects (out ++ q.1, q.2) (o.map (R :: ·)) := by
  obtain ⟨rs, ho, htrees, herror⟩ := h
  refine ⟨R :: rs, by rw [ho]; rfl, ?_, ?_⟩
  · simp [treesOf, ← hR, ← htrees]
  · cases rs with
    | nil => simp [finalError] at herror
    | cons R' rs => simpa [finalError, List.getLast?_cons_cons] using herror

lemma scan_flatten_cons (r : Reader) (u : List Byte) (rest : List (List Byte)) :
    scan r (u :: rest).flatten = scanOn (scan r u) rest.flatten := by
  rw [List.flatten_cons, scan_append]

section Step

variable {n : Nat} {cc : Pcont} {errno : ErrCode} {R : Return}

lemma drive_bad
    (hcall : cparseSexp g (some (chunk ++ [nul])) chunk.length (some cc) errno = .ret R)
    (hbad : R.cc.error = .badForm) : drive g (n + 1) (chunk :: rest) cc errno = some [R] := by
  rw [drive, hcall]
  exact if_pos hbad

lemma drive_next
    (hcall : cparseSexp g (some (chunk ++ [nul])) chunk.length (some cc) errno = .ret R)
    (herror : R.cc.error ≠ .badForm) (hpos : R.cc.lastPos = none) :
    drive g (n + 1) (chunk :: rest) cc errno = (drive g n rest R.cc R.errno).map (R :: ·) := by
  rw [drive, hcall]
  dsimp only
  rw [if_neg herror, if_pos hpos]

lemma drive_again {p : Nat}
    (hcall : cparseSexp g (some (chunk ++ [nul])) chunk.length (some cc) errno = .ret R)
    (herror : R.cc.error ≠ .badForm) (hpos : R.cc.lastPos = some p) :
    drive g (n + 1) (chunk :: rest) cc errno =
      (drive g n (chunk :: rest) R.cc R.errno).map (R :: ·) := by
  rw [drive, hcall]
  dsimp only
  rw [if_neg herror, if_neg (by simp [hpos])]

lemma drive_fault {f : Fault}
    (hcall : cparseSexp g (some (chunk ++ [nul])) chunk.length (some cc) errno = .fault f) :
    drive g (n + 1) (chunk :: rest) cc errno = none := by
  rw [drive, hcall]

end Step

lemma clean_ok {r r' : Reader} {u : List Byte} {out : List Tree} (h : scan r u = (out, .ok r')) :
    Clean r (u :: rest) ↔ r'.pair = false ∧ Clean r' rest := by
  rw [Clean, h]

lemma clean_error {r : Reader} {e : ReadErr} {u : List Byte} {out : List Tree}
    (h : scan r u = (out, .error e)) : Clean r (u :: rest) ↔ e = .badForm := by
  rw [Clean, h]

/-- The client collects what the reader puts out, and is undefined when the input is not clean. -/
def Delivers (r : Reader) (chunks : List (List Byte)) (o : Option (List Return)) : Prop :=
  (Clean r chunks → Collects (scan r chunks.flatten) o) ∧ (¬ Clean r chunks → o = none)

/-- The run of the client, from a continuation that stands some bytes into the first chunk. -/
lemma drive_spec (hg : g.Succeeds) {n : Nat} {cc : Pcont} {L : List (List Sexp)} {errno : ErrCode}
    (hi : Good cc.toRegs L) (h3 : cc.state ≠ .s3) {p : Nat} (hp : cc.lastPos.getD 0 = p)
    (hle : p ≤ chunk.length) (hnul : ∀ u ∈ chunk :: rest, nul ∉ u)
    (hn : (scan (view cc.toRegs L) (chunk.drop p :: rest).flatten).1.length + rest.length < n) :
    Delivers (view cc.toRegs L) (chunk.drop p :: rest) (drive g n (chunk :: rest) cc errno) := by
  induction n generalizing chunk rest cc L errno p with
  | zero => omega
  | succ n ih =>
    have hb : Holding (Call.env ⟨g, chunk ++ [nul], chunk.length, errno⟩) chunk [nul] :=
      ⟨hg, rfl, Nat.le_refl _, .inl rfl, by simp, hnul chunk (by simp)⟩
    obtain ⟨s, hcall, hends⟩ := call_ends (k := ⟨g, chunk ++ [nul], chunk.length, errno⟩) hb hi h3
      (by rw [hp]; exact hle)
    rw [hp] at hends
    rw [scan_flatten_cons] at hn
    unfold Delivers
    rw [scan_flatten_cons]
    generalize hscan : scan (view cc.toRegs L) (chunk.drop p) = q at hends hn ⊢
    cases hends with
    | more R L' hgood hq htree herror herrno hnone hcursor h3' =>
      rw [hq] at hscan
      rw [hq, scanOn_silent] at hn
      have hne : R.cc.error ≠ .badForm := by simp [herror]
      rw [clean_ok hscan, hq, scanOn_silent, drive_next hcall hne hnone]
      have hpair : (view R.cc.toRegs L').pair = false := rfl
      have hforest : forest R.cc.lastSexp = [] := by
        rw [htree]
        rfl
      cases rest with
      | nil =>
        refine ⟨fun _ => ⟨[R], by simp [drive], ?_, ?_⟩, fun hc => absurd ⟨hpair, trivial⟩ hc⟩
        · simp [treesOf, hforest]
        · simp [finalError, herror, errorOf]
      | cons chunk' rest =>
        have hzero : R.cc.lastPos.getD 0 = 0 := by simp [hnone]
        have hnul' : ∀ u ∈ chunk' :: rest, nul ∉ u :=
          fun u hu => hnul u (List.mem_cons_of_mem _ hu)
        have hrec := @ih chunk' rest R.cc L' R.errno hgood h3' 0 hzero (Nat.zero_le _) hnul' (by
          rw [List.drop_zero]
          simp only [List.length_cons] at hn
          omega)
        rw [List.drop_zero] at hrec
        refine ⟨fun hc => collects_cons hforest (hrec.1 hc.2), fun hc => ?_⟩
        rw [hrec.2 fun h => hc ⟨hpair, h⟩]
        rfl
    | tree R x p' hr hp' hq =>
      have hne : R.cc.error ≠ .badForm := by simp [hr.error]
      have hpos : R.cc.lastPos.getD 0 = p' := by simp [hr.lastPos]
      have hforest : forest R.cc.lastSexp = [x.tree] := by
        rw [hr.tree]
        rfl
      rw [drive_again hcall hne hr.lastPos]
      have h3' : R.cc.state ≠ .s3 := by simp [hr.idle.state]
      have hrest : scanOn q rest.flatten =
          ([x.tree] ++ (scan Reader.start (chunk.drop p' :: rest).flatten).1,
            (scan Reader.start (chunk.drop p' :: rest).flatten).2) := by
        rw [hq, scanOn_cons, scan_flatten_cons]
        rfl
      have hclean : Clean (view cc.toRegs L) (chunk.drop p :: rest) ↔
          Clean Reader.start (chunk.drop p' :: rest) := by
        rw [Clean, Clean, hscan, hq]
      rw [hrest] at hn
      simp only [List.length_append, List.length_singleton] at hn
      have hrec := @ih chunk rest R.cc [] R.errno hr.idle.good h3' p' hpos hp' hnul (by
        rw [hr.idle.start]
        omega)
      rw [hr.idle.start] at hrec
      rw [hclean, hrest]
      refine ⟨fun hc => collects_cons hforest (hrec.1 hc), fun hc => ?_⟩
      rw [hrec.2 hc]
      rfl
    | bad R hr hq =>
      rw [hq] at hscan
      rw [clean_error hscan, hq, scanOn_error, drive_bad hcall hr.error]
      refine ⟨fun _ => ⟨[R], rfl, ?_, ?_⟩, fun hc => absurd rfl hc⟩
      · simp [treesOf, hr.tree, forest]
      · simp [finalError, hr.error, errorOf]
    | stray hq =>
      rw [hq] at hscan
      rw [clean_error hscan, drive_fault hcall]
      exact ⟨fun hc => absurd hc (by decide), fun _ => rfl⟩
    | overrun s r hq hpair hlex hs =>
      rw [hq] at hscan
      rw [hs rfl] at hcall
      rw [clean_ok hscan, drive_fault hcall]
      refine ⟨fun hc => ?_, fun _ => rfl⟩
      rw [hpair] at hc
      exact absurd hc.1 (by decide)

lemma good_new (g : Setup) : Good (Pcont.new g).toRegs [] :=
  ⟨⟨⟨g.length_fresh _, g.params.start_pos⟩, rfl⟩, rfl, by simp [Pcont.new], .inr (.inr rfl),
    .inr (.inr rfl), stackOk_makeStack, rfl, by simp [Pcont.new], sealedLevels_nil⟩

lemma view_new (g : Setup) : view (Pcont.new g).toRegs [] = Reader.start := by
  simp [view, Pcont.new, lexOf, announced, Reader.start]

lemma driver_spec (hg : g.Succeeds) {chunks : List (List Byte)} (hne : chunks ≠ [])
    (hnul : ∀ u ∈ chunks, nul ∉ u) : Delivers Reader.start chunks (driver g chunks) := by
  cases chunks with
  | nil => exact absurd rfl hne
  | cons chunk rest =>
    have hlen := scan_length Reader.start (chunk :: rest).flatten
    have hbound : (scan Reader.start (chunk :: rest).flatten).1.length + rest.length <
        callBound (chunk :: rest) := by
      rw [callBound, List.length_cons]
      omega
    have h := @drive_spec g chunk rest hg (callBound (chunk :: rest)) (Pcont.new g) [] .ok
      (good_new g) (by simp [Pcont.new]) 0 rfl (Nat.zero_le _) hnul (by
        rwa [view_new, List.drop_zero])
    rwa [view_new, List.drop_zero] at h

end Drive

/-- No byte of `w` is escaped by a backslash that belongs to an earlier token. -/
def StrayFree (w : List Byte) : Prop := (scan Reader.start w).2 ≠ .error .stray

/-- The last byte of `w` ends an escape pair inside double quotes. -/
def EndsInPair (w : List Byte) : Prop :=
  ∃ r, (scan Reader.start w).2 = .ok r ∧ r.pair = true

lemma clean_iff (r : Reader) (hr : r.pair = false) (chunks : List (List Byte)) :
    Clean r chunks ↔ (scan r chunks.flatten).2 ≠ .error .stray ∧
      ∀ n, ¬ ∃ r', (scan r (chunks.take n).flatten).2 = .ok r' ∧ r'.pair = true := by
  induction chunks generalizing r with
  | nil => simp [Clean, hr]
  | cons chunk rest ih =>
    rcases hscan : scan r chunk with ⟨out, e | r'⟩
    · rw [clean_error hscan, scan_flatten_cons, hscan, scanOn_error]
      constructor
      · rintro rfl
        refine ⟨by simp, fun n => ?_⟩
        cases n with
        | zero => simp [hr]
        | succ n => simp [scan_append, hscan]
      · rintro ⟨hstray, -⟩
        cases e with
        | badForm => rfl
        | stray => exact absurd rfl hstray
    · have htake : ∀ n, (scan r ((chunk :: rest).take (n + 1)).flatten).2 =
          (scan r' (rest.take n).flatten).2 := by
        intro n
        rw [List.take_succ_cons, scan_flatten_cons, hscan, scanOn_ok]
      rw [clean_ok hscan, scan_flatten_cons, hscan, scanOn_ok]
      constructor
      · rintro ⟨hpair, hclean⟩
        obtain ⟨hstray, hends⟩ := (ih r' hpair).mp hclean
        refine ⟨hstray, fun n => ?_⟩
        cases n with
        | zero => simp [hr]
        | succ n =>
          rw [htake]
          exact hends n
      · rintro ⟨hstray, hends⟩
        have hpair : r'.pair = false := by
          have hfirst := hends 1
          rw [htake] at hfirst
          simpa using hfirst
        refine ⟨hpair, (ih r' hpair).mpr ⟨hstray, fun n => ?_⟩⟩
        rw [← htake]
        exact hends (n + 1)

/-- Passing the input in chunks and passing it at once are both defined and give the same trees and
the same error, exactly when no escaped byte is stray and no chunk ends behind an escape pair inside
double quotes. -/
theorem chunk_independence {g g' : Setup} (hg : g.Succeeds) (hg' : g'.Succeeds)
    {chunks : List (List Byte)} (hne : chunks ≠ []) (hnul : ∀ u ∈ chunks, nul ∉ u) :
    (∃ rs rs', driver g chunks = some rs ∧ driver g' [chunks.flatten] = some rs' ∧
        treesOf rs = treesOf rs' ∧ finalError rs = finalError rs') ↔
      StrayFree chunks.flatten ∧ ∀ n, ¬ EndsInPair (chunks.take n).flatten := by
  have hiff := clean_iff Reader.start rfl chunks
  have hcut := driver_spec hg hne hnul
  have hnul' : ∀ u ∈ [chunks.flatten], nul ∉ u := by
    intro u hu hin
    rw [List.mem_singleton.mp hu] at hin
    obtain ⟨v, hv, hin'⟩ := List.mem_flatten.mp hin
    exact hnul v hv hin'
  have hwhole := driver_spec hg' (List.cons_ne_nil _ _) hnul'
  constructor
  · rintro ⟨rs, rs', hrs, -, -, -⟩
    refine hiff.mp ?_
    by_contra hclean
    rw [hcut.2 hclean] at hrs
    cases hrs
  · intro hcond
    obtain ⟨hstray, hends⟩ := hcond
    have hclean' : Clean Reader.start [chunks.flatten] := by
      refine (clean_iff Reader.start rfl _).mpr ⟨?_, fun n => ?_⟩
      · simpa [StrayFree] using hstray
      · cases n with
        | zero => exact hends 0
        | succ n =>
          have hall := hends chunks.length
          rw [List.take_length] at hall
          simpa [EndsInPair] using hall
    obtain ⟨rs, hrs, htrees, herror⟩ := hcut.1 (hiff.mpr ⟨hstray, hends⟩)
    obtain ⟨rs', hrs', htrees', herror'⟩ := hwhole.1 hclean'
    rw [List.flatten_cons, List.flatten_nil, List.append_nil] at htrees' herror'
    exact ⟨rs, rs', hrs, hrs', htrees.trans htrees'.symm, herror.trans herror'.symm⟩

/-- The string `"\""` cut behind its backslash. -/
theorem chunk_independence_escape :
    (∃ rs rs', driver .plain [[dquote, backslash], [dquote, dquote]] = some rs ∧
        driver .plain [[dquote, backslash, dquote, dquote]] = some rs' ∧
        treesOf rs = treesOf rs' ∧ finalError rs = finalError rs') ↔
      StrayFree [dquote, backslash, dquote, dquote] ∧
        ∀ n, ¬ EndsInPair (([[dquote, backslash], [dquote, dquote]] : List _).take n).flatten :=
  @chunk_independence .plain .plain (fun _ => rfl) (fun _ => rfl)
    [[dquote, backslash], [dquote, dquote]] (by decide)
    (by decide)

/-- Cut behind the escape pair, the same string runs out of its chunk. -/
theorem chunk_cut_behind_pair :
    driver .plain [[dquote, backslash, dquote], [dquote]] = none ∧
      (driver .plain [[dquote, backslash, dquote, dquote]]).map (fun rs => rs.length) = some 2 := by
  have hcut : (driver .plain [[dquote, backslash, dquote], [dquote]]).isNone = true := by
    decide +kernel
  refine ⟨?_, by decide +kernel⟩
  rwa [Option.isNone_iff_eq_none] at hcut

end Sfsexp.Proofs
