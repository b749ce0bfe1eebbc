import Sfsexp.Model.Calls

/-!
# `read_one_sexp`

The wrapper of a file descriptor that hands out the expressions read from it one by one. What
`read` delivers is a list of pieces; behind the last one it returns 0.
-/

namespace Sfsexp

/-- `sexp_iowrap_t`, without the descriptor. `buf` has `BUFSIZ` cells. -/
structure IoWrap where
  cc : Option Pcont
  buf : List Byte
  cnt : Nat

/-- `init_iowrap`, when its allocation succeeds or fails. -/
def initIowrap (bufsiz : Nat) (alloc : Bool) (errno : ErrCode) : Option IoWrap × ErrCode :=
  if alloc then (some { cc := none, buf := List.replicate bufsiz nul, cnt := 0 }, errno)
  else (none, .memory)

/-- The bytes that align `cnt` behind `cc`, `fd` and `buf`. `sexp_calloc` has cleared them. -/
def padding (bufsiz : Nat) : List Byte := List.replicate ((8 - (12 + bufsiz) % 8) % 8) nul

/-- The bytes of the field `cnt`. -/
def cntBytes (cnt : Nat) : List Byte := (List.range 8).map fun i => UInt8.ofNat (cnt / 256 ^ i)

/-- The place of a byte: how many pieces are left to read when its own is in `buf`, and where it
stands there. -/
structure BytePlace where
  left : Nat
  pos : Nat
  deriving DecidableEq, Repr

/-- The bytes that the parser has stepped over, and their places. -/
structure Trail where
  fed : List Byte
  places : List BytePlace
  deriving DecidableEq

instance : Append Trail := ⟨fun s s' => ⟨s.fed ++ s'.fed, s.places ++ s'.places⟩⟩

/-- No byte. -/
def Trail.none : Trail := ⟨[], []⟩

namespace IoWrap

variable (iow : IoWrap)

/-- The memory at `buf`. When `read` fills all of `buf`, the parser looks at the byte behind it. -/
def memory : List Byte := iow.buf ++ (padding iow.buf.length ++ cntBytes iow.cnt)

/-- `read(iow->fd, iow->buf, BUFSIZ)`, which delivers `piece`. -/
def fill (piece : List Byte) : IoWrap :=
  { iow with buf := piece ++ iow.buf.drop piece.length, cnt := piece.length }

/-- `cparse_sexp(iow->buf, iow->cnt, iow->cc)`. -/
def parse (g : Setup) (errno : ErrCode) : Result :=
  cparseSexp g (some iow.memory) iow.cnt iow.cc errno

/-- What the cursor steps over in a call that returns `R`, while `left` pieces are left to read. -/
def stepped (left : Nat) (R : Return) : Trail :=
  let p := (iow.cc.bind (·.lastPos)).getD 0
  { fed := (iow.buf.take R.cursor).drop p
    places := (List.range' p (R.cursor - p)).map (⟨left, ·⟩) }

end IoWrap

/-- What `read_one_sexp` returns, with the wrapper, the pieces that are not read yet and `sexp_errno`
afterwards, and what the parser has stepped over. -/
structure OneRead extends Trail where
  sx : List Sexp
  iow : IoWrap
  pieces : List (List Byte)
  errno : ErrCode

/-- A return with `last_sexp`. -/
def takeLast (iow : IoWrap) (cc : Pcont) (pieces : List (List Byte)) (errno : ErrCode)
    (steps : Trail) : OneRead :=
  { sx := cc.lastSexp, iow := { iow with cc := some { cc with lastSexp := [] } }, pieces := pieces
    errno := errno, toTrail := steps }

/-- A `NULL` return. -/
def noSexp (iow : IoWrap) (pieces : List (List Byte)) (errno : ErrCode) (steps : Trail) :
    OneRead :=
  { sx := [], iow := iow, pieces := pieces, errno := errno, toTrail := steps }

/-- The `while` loop of `read_one_sexp`, after a call of the parser that returned `cc`. -/
def readMore (g : Setup) (pieces : List (List Byte)) (iow : IoWrap) (cc : Pcont) (errno : ErrCode)
    (steps : Trail) : Option OneRead :=
  if cc.lastSexp ≠ [] then some (takeLast iow cc pieces errno steps)
  else if cc.error ≠ .ok then some (noSexp { iow with cc := some cc } pieces cc.error steps)
  else
    match pieces with
    | [] => some (noSexp { iow with cc := some cc, cnt := 0 } [] .ioEmpty steps)
    | piece :: rest =>
      let iow := { iow with cc := some cc }.fill piece
      if iow.cnt = 0 then some (noSexp iow rest .ioEmpty steps)
      else
        match iow.parse g errno with
        | .ret R =>
          readMore g rest { iow with cnt := 0 } R.cc R.errno (steps ++ iow.stepped rest.length R)
        | _ => none
  termination_by structural pieces

/-- The part of `read_one_sexp` behind its first read. A parser that returns `NULL` is followed. -/
def parseFresh (g : Setup) (iow : IoWrap) (pieces : List (List Byte)) (errno : ErrCode)
    (steps : Trail) : Option OneRead :=
  match iow.parse g errno with
  | .ret R => readMore g pieces iow R.cc R.errno (steps ++ iow.stepped pieces.length R)
  | _ => none

/-- The part of `read_one_sexp` behind what is left of the last piece. -/
def readFresh (g : Setup) (iow : IoWrap) (pieces : List (List Byte)) (errno : ErrCode)
    (steps : Trail) : Option OneRead :=
  if iow.cnt = 0 then
    let iow := iow.fill (pieces.headD [])
    if iow.cnt = 0 then some (noSexp iow pieces.tail .ioEmpty steps)
    else parseFresh g iow pieces.tail errno steps
  else parseFresh g iow pieces errno steps

/-- `read_one_sexp` on a wrapper; `none` where the run is undefined. -/
def readOneSexp (g : Setup) (iow : IoWrap) (pieces : List (List Byte)) (errno : ErrCode) :
    Option OneRead :=
  if (iow.cc.bind (·.lastPos)).isSome then
    match iow.parse g errno with
    | .ret R =>
      let steps := iow.stepped pieces.length R
      if R.cc.lastSexp ≠ [] then some (takeLast iow R.cc pieces R.errno steps)
      else readFresh g { iow with cc := some R.cc, cnt := 0 } pieces R.errno steps
    | .null errno => some (noSexp { iow with cc := none } pieces errno .none)
    | _ => none
  else readFresh g iow pieces errno .none

/-- What a client has after its last call: the expressions it got, the wrapper, `sexp_errno`, and
what the parser stepped over in all calls. -/
structure Readings extends Trail where
  trees : List (List Sexp)
  iow : IoWrap
  errno : ErrCode

/-- A call that returned no expression was the last one. -/
def OneRead.last (r : OneRead) : Readings :=
  { trees := [], iow := r.iow, errno := r.errno, toTrail := r.toTrail }

/-- Another call was made before. -/
def OneRead.before (r : OneRead) (rs : Readings) : Readings :=
  { rs with trees := r.sx :: rs.trees, toTrail := r.toTrail ++ rs.toTrail }

/-- A client that calls `read_one_sexp` until it returns `NULL`, at most `n` times; `none` when a call
is undefined, or when there are more calls to make. -/
def readAll (gs : Nat → Setup) : Nat → IoWrap → List (List Byte) → ErrCode → Option Readings
  | 0, _, _, _ => none
  | n + 1, iow, pieces, errno =>
    match readOneSexp (gs n) iow pieces errno with
    | none => none
    | some r =>
      if r.sx = [] then some r.last else (readAll gs n r.iow r.pieces r.errno).map r.before

/-- A client that calls `read_one_sexp` until it returns `NULL` with `SEXP_ERR_IO_EMPTY`, at most `n`
times. What it gets with other errors is the empty chain. -/
def readThrough (gs : Nat → Setup) : Nat → IoWrap → List (List Byte) → ErrCode → Option Readings
  | 0, _, _, _ => none
  | n + 1, iow, pieces, errno =>
    match readOneSexp (gs n) iow pieces errno with
    | none => none
    | some r =>
      if r.sx = [] ∧ r.errno = .ioEmpty then some r.last
      else (readThrough gs n r.iow r.pieces r.errno).map r.before

end Sfsexp
