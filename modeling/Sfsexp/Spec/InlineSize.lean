import Mathlib.Logic.Relation
import Sfsexp.Model.Calls

/-!
# Sizes of inline binary atoms

The sizes that may stand between `#b#` and `#`, the way of a client that passes its input in chunks
through the heads of the loop, and the heads at which a blob is read.
-/

namespace Sfsexp.Spec

open Sfsexp

/-- The number that decimal digits stand for. -/
def numberOf (u : List Byte) : Nat := u.foldl (fun n c => 10 * n + (c.toNat - 48)) 0

/-- One or more decimal digits. -/
def Numeral (u : List Byte) : Prop := u ≠ [] ∧ ∀ c ∈ u, 48 ≤ c ∧ c ≤ 57

/-- `SizeText s v`: the text `s` is a numeral, perhaps with a minus sign in front, and its value `v`
fits an `int`. -/
inductive SizeText : List Byte → Int → Prop where
  | plain (u : List Byte) (hu : Numeral u) (hint : numberOf u < 2 ^ 31) :
      SizeText u (numberOf u)
  | minus (u : List Byte) (hu : Numeral u) (hint : numberOf u ≤ 2 ^ 31) :
      SizeText (45 :: u) (-(numberOf u : Int))

/-- A call that is still to come, and the chunk that it passes. -/
structure Chunk where
  setup : Setup
  bytes : List Byte

/-- The chunk in a string of its own. -/
def Chunk.env (q : Chunk) : Env :=
  { toSetup := q.setup, buf := q.bytes ++ [nul], len := q.bytes.length }

/-- A loop head of a call, and the calls that the client makes after it. -/
structure Place where
  env : Env
  locals : Locals
  later : List Chunk

/-- The bytes `u` are what is left of the string at the cursor `t`, with a NUL behind them. -/
def Unread (env : Env) (t : Nat) (u : List Byte) : Prop :=
  (∃ tail, env.buf.drop t = u ++ nul :: tail) ∧ env.len = t + u.length

/-- The text that is left in the string and in the chunks to come. -/
def Upcoming (p : Place) (text : List Byte) : Prop :=
  ∃ u, Unread p.env p.locals.t u ∧ text = u ++ p.later.flatMap (·.bytes)

/-- A round of the loop, or the call with the next chunk when the parser has read all and asks for
more. -/
inductive StepsTo : Place → Place → Prop where
  | round {p : Place} {l : Locals} (h : cparseHead p.env p.locals = .ok l) :
      StepsTo p { p with locals := l }
  | call {p : Place} {R : Return} {q : Chunk} {later : List Chunk}
      (h : cparseHead p.env p.locals = .error (.ret R)) (hmore : R.cc.error = .incomplete)
      (hall : R.cc.lastPos = none) (hlater : p.later = q :: later) :
      StepsTo p ⟨q.env, R.cc.enter 0, later⟩

/-- A round of the loop, or any call on the continuation that was returned. -/
inductive Continues : Env × Locals → Env × Locals → Prop where
  | round {env : Env} {l l' : Locals} (h : cparseHead env l = .ok l') :
      Continues (env, l) (env, l')
  | call {env : Env} {l : Locals} {R : Return} (k : Call)
      (h : cparseHead env l = .error (.ret R)) : Continues (env, l) (k.env, R.cc.enter 0)

/-- The heads met behind the head `p`, as long as the parser stays inside the blob. -/
inductive BlobHead (p : Env × Locals) : Env × Locals → Prop where
  | first {q : Env × Locals} (h : Continues p q) : BlobHead p q
  | next {q r : Env × Locals} (hq : BlobHead p q) (hinside : q.2.state = .s15)
      (h : Continues q r) : BlobHead p r

/-- A byte of the blob that is written at this head goes into a block of `binexpected` bytes. -/
def WritesInside (p : Env × Locals) : Prop :=
  p.2.state = .s15 → p.2.t ≠ p.1.len → p.2.binread < p.2.binexpected →
    ∃ data, p.2.bindata = some data ∧ data.length = p.2.binexpected

/-- In a list whose top level holds `T` so far, with room in the atom buffer. -/
structure InList (T : List Sexp) (rest : List (List Sexp)) (l : Regs) : Prop where
  mode : l.mode = .inlineBinary
  cells : l.val.length = l.valAllocated
  free : l.valUsed < l.valAllocated
  levels : l.stack.levels = T :: rest
  depth : 0 < l.depth

/-- A token starts inside the list. An earlier token that was given up may have left bytes in the
buffer. -/
structure TokenStart (T : List Sexp) (rest : List (List Sexp)) (l : Regs) : Prop
    extends InList T rest l where
  state : l.state = .s1

/-- All requests of the call and of those after it are granted. -/
def AllGranted (p : Place) : Prop := p.env.Succeeds ∧ ∀ q ∈ p.later, q.setup.Succeeds

/-- A step that is not taken inside a blob. -/
def OutsideStep (p q : Place) : Prop := p.locals.state ≠ .s15 ∧ StepsTo p q

/-- At the place `p` the parser has read `#b#` and a size, and the `#` behind the size is the next byte
of the string, with `w` behind it in this string and the chunks to come. -/
structure SizeRead (p₀ : Place) (w : List Byte) (p : Place) : Prop where
  run : Relation.ReflTransGen OutsideStep p₀ p
  state : p.locals.state = .s14
  ahead : Upcoming p (hash :: w)
  here : p.env.buf[p.locals.t]? = some hash

/-- What the size `v` promises where the `#` behind it is next: for `n > 0`, once `n` more bytes are
there, and for 0 once any byte is, the `n` bytes are added to the list as one binary atom; a negative
size is rejected; and no byte of the blob is written outside its block, whatever calls and failures
come. -/
structure Decodes (env : Env) (l : Locals) (v : Int) (T : List Sexp) (rest : List (List Sexp)) :
    Prop where
  atom : ∀ (data w : List Byte) (later : List Chunk), v = data.length → (data = [] → w ≠ []) →
    Upcoming ⟨env, l, later⟩ (hash :: (data ++ w)) → AllGranted ⟨env, l, later⟩ →
    ∃ p block, Relation.ReflTransGen StepsTo ⟨env, l, later⟩ p ∧ Upcoming p w ∧
      p.locals.state = .s1 ∧ block.getD [] = data ∧
      p.locals.stack.levels = (T ++ [.blob block data.length]) :: rest
  rejected : v < 0 → ∃ p R, Relation.ReflTransGen Continues (env, l) p ∧
    cparseHead p.1 p.2 = .error (.ret R) ∧ R.cc.error = .badContent
  inside : ∀ p, BlobHead (env, l) p → WritesInside p

end Sfsexp.Spec
