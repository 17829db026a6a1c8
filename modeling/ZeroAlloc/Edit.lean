import ZeroAlloc.Text.Bytes
set_option autoImplicit false

/-! # Text edits

An edit replaces the bytes from one offset up to another. A set of edits is applied in one pass,
from the back of the text to the front: their order does not matter, but they must lie within the
source, at character boundaries, and not touch the same bytes. Two insertions at one offset count as
touching, since their order would be open. -/

namespace ZeroAlloc

/-- Replace the bytes from `start` up to `stop`; an empty range is an insertion. -/
structure Edit where
  start : Nat
  stop : Nat
  replacement : String
  /-- What the edit does, for reports. -/
  message : String
  deriving DecidableEq

/-- Why a set of edits cannot be applied. -/
inductive EditError where
  | outOfBounds (start stop size : Nat)
  | notBoundary (start stop : Nat)
  | overlap (first second : Nat × Nat)
  deriving DecidableEq

namespace EditError

/-- A byte range as error messages show it. -/
def range (r : Nat × Nat) : String :=
  "(" ++ toString r.1 ++ ", " ++ toString r.2 ++ ")"

/-- The text of the error. -/
def message : EditError → String
  | outOfBounds start stop size =>
    "edit " ++ toString start ++ ".." ++ toString stop ++ " is outside the " ++ toString size ++
      "-byte source"
  | notBoundary start stop =>
    "edit " ++ toString start ++ ".." ++ toString stop ++ " does not fall on character boundaries"
  | overlap first second => "edits " ++ range first ++ " and " ++ range second ++ " overlap"

end EditError

namespace Edit

/-- Whether the two edits touch the same bytes. -/
def overlaps (e other : Edit) : Bool :=
  e.start == other.start || (e.start < other.stop && other.start < e.stop)

/-- The order in which edits are applied: by start, then by end. -/
def comesBefore (e other : Edit) : Bool :=
  e.start < other.start || (e.start == other.start && e.stop ≤ other.stop)

/-- What is wrong with the place of an edit. -/
def fault? (cs : List Char) (e : Edit) : Option EditError :=
  let size := Text.byteLength cs
  if e.start > e.stop || e.stop > size then some (.outOfBounds e.start e.stop size)
  else if Text.isBoundary e.start cs && Text.isBoundary e.stop cs then none
  else some (.notBoundary e.start e.stop)

/-- The first two neighbours that touch the same bytes. -/
def conflict? : List Edit → Option EditError
  | e :: other :: es =>
    if e.overlaps other then some (.overlap (e.start, e.stop) (other.start, other.stop))
    else conflict? (other :: es)
  | _ => none

/-- The text with the range of the edit exchanged for its replacement. -/
def replaceIn (e : Edit) (cs : List Char) : List Char :=
  Text.takeBytes e.start cs ++ (e.replacement.toList ++ Text.dropBytes e.stop cs)

/-- The text with sorted edits made one after the other. The last one is made first, so that the
places of those still to be made do not move. -/
def replaceBackward (cs : List Char) (sorted : List Edit) : List Char :=
  sorted.reverse.foldl (fun text e => e.replaceIn text) cs

/-- The source with all edits applied. -/
def apply (source : String) (edits : List Edit) : Except EditError String :=
  let cs := source.toList
  let sorted := edits.mergeSort comesBefore
  match sorted.findSome? (fault? cs) with
  | some error => .error error
  | none =>
    match conflict? sorted with
    | some error => .error error
    | none => .ok (String.ofList (replaceBackward cs sorted))

@[simp] theorem apply_nil (source : String) : apply source [] = .ok source := by
  simp [apply, conflict?, replaceBackward]

end Edit

end ZeroAlloc
