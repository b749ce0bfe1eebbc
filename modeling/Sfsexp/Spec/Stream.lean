import Sfsexp.Model.IoWrap
import Sfsexp.Spec.Reader

/-!
# The bytes of a stream

A byte of the pieces that `read` delivers is known by its place, so that what the parser steps over
can be compared with what was delivered, byte by byte.
-/

namespace Sfsexp

/-- The places of all bytes of the pieces, in the order of the stream. -/
def placesOf : List (List Byte) → List BytePlace
  | [] => []
  | u :: rest => (List.range' 0 u.length).map (⟨rest.length, ·⟩) ++ placesOf rest

namespace Trail

/-- All bytes of the pieces. -/
def all (pieces : List (List Byte)) : Trail := ⟨pieces.flatten, placesOf pieces⟩

/-- The bytes of the piece `u` from `p` on, behind which `left` pieces are left to read. -/
def rest (left : Nat) (u : List Byte) (p : Nat) : Trail :=
  ⟨u.drop p, (List.range' p (u.length - p)).map (⟨left, ·⟩)⟩

variable (s s' s'' : Trail)

@[simp] lemma append_fed : (s ++ s').fed = s.fed ++ s'.fed := rfl

@[simp] lemma append_places : (s ++ s').places = s.places ++ s'.places := rfl

@[simp] lemma none_fed : none.fed = [] := rfl

@[simp] lemma none_places : none.places = [] := rfl

@[simp] lemma none_append : none ++ s = s := rfl

@[simp] lemma append_none : s ++ none = s := by
  cases s
  exact congrArg₂ Trail.mk (List.append_nil _) (List.append_nil _)

lemma append_assoc : s ++ s' ++ s'' = s ++ (s' ++ s'') := by
  cases s
  exact congrArg₂ Trail.mk (List.append_assoc _ _ _) (List.append_assoc _ _ _)

@[simp] lemma all_nil : all [] = none := rfl

lemma all_cons (u : List Byte) (us : List (List Byte)) :
    all (u :: us) = rest us.length u 0 ++ all us := rfl

@[simp] lemma rest_fed (left : Nat) (u : List Byte) (p : Nat) : (rest left u p).fed = u.drop p := rfl

lemma rest_end (left : Nat) (u : List Byte) : rest left u u.length = none := by
  simp [rest, none]

end Trail

/-- The wrapper when the client has put a new continuation there, in mode `PARSER_EVENTS_ONLY`. -/
def IoWrap.listening (iow : IoWrap) (g : Setup) (hs : Option Handlers) : IoWrap :=
  { iow with cc := some { Pcont.new g with mode := .eventsOnly, eventHandlers := hs } }

/-- The client comes to the end of the stream, and the parser has stepped over each byte of the pieces
once, and in order. -/
def FedOnce (gs : Nat → Setup) (iow : IoWrap) (pieces : List (List Byte)) (errno : ErrCode) : Prop :=
  ∃ n rs, readThrough gs n iow pieces errno = some rs ∧ rs.places = placesOf pieces

/-- And it has got the expressions of the stream. -/
def ServedOnce (gs : Nat → Setup) (iow : IoWrap) (pieces : List (List Byte)) (errno : ErrCode) :
    Prop :=
  ∃ n rs, readThrough gs n iow pieces errno = some rs ∧ rs.places = placesOf pieces ∧
    rs.trees.flatMap forest = (Spec.scan Spec.Reader.start pieces.flatten).1

/-- In the state `r` the reader puts out one expression of `w`, which the last byte ends. -/
def Spec.EndsLast (r : Spec.Reader) (w : List Byte) : Prop :=
  ∃ x, Spec.scan r w = ([x], .ok Spec.Reader.start) ∧
    ∀ c, w.getLast? = some c → isWhite c = false

end Sfsexp
