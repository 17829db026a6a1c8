import ZeroAlloc.Glob.Match
set_option autoImplicit false

/-! # Reading globs

A pattern is read from left to right. Two stars stand for directories only where slashes or the ends
of the pattern or of an alternative surround them, and for two single stars elsewhere. -/

namespace ZeroAlloc.Glob

/-- An alternative group that is open: what stands before it, and its finished branches. All is in
reverse. -/
structure OpenGroup where
  before : List GlobPiece
  branches : List (List GlobPiece)

/-- How far a pattern has been read. -/
structure Reading where
  /-- The pieces of the present branch, in reverse. -/
  pieces : List GlobPiece
  /-- The open groups, innermost first. -/
  groups : List OpenGroup
  /-- The character read last. -/
  previous : Option Char

namespace Reading

/-- Add a piece, for which the given character was read last. -/
def push (r : Reading) (piece : GlobPiece) (last : Char) : Reading :=
  { r with pieces := piece :: r.pieces, previous := some last }

/-- Whether an alternative group is open. -/
def inGroup (r : Reading) : Bool :=
  !r.groups.isEmpty

/-- Open a group. -/
def openGroup (r : Reading) : Reading :=
  { pieces := [], groups := ⟨r.pieces, []⟩ :: r.groups, previous := some '\x7b' }

/-- Read a comma, which in a group ends a branch. -/
def comma (r : Reading) : Reading :=
  match r.groups with
  | [] => r.push (.literal ',') ','
  | group :: groups =>
    { pieces := []
      groups := { group with branches := r.pieces.reverse :: group.branches } :: groups
      previous := some ',' }

/-- Close the innermost group. -/
def closeGroup (r : Reading) : Except GlobError Reading :=
  match r.groups with
  | [] => .error .unopenedAlternates
  | group :: groups =>
    let branches := (r.pieces.reverse :: group.branches).reverse
    .ok { pieces := .alternatives branches :: group.before, groups, previous := some '\x7d' }

/-- Two single stars. -/
def twoStars (r : Reading) : Reading :=
  (r.push .anyText '*').push .anyText '*'

/-- Directories behind a slash: they take the place of the slash before them, unless directories
stand there already. -/
def directories (r : Reading) (piece : GlobPiece) (last : Char) : Reading :=
  let pieces := match r.pieces with
    | .leadingDirectories :: pieces => .leadingDirectories :: pieces
    | .everythingBelow :: pieces => .everythingBelow :: pieces
    | _ :: pieces => piece :: pieces
    | [] => [piece]
  { r with pieces, previous := some last }

/-- Read two stars, and the slash behind them if they stand for directories. -/
def doubleStar (r : Reading) (rest : List Char) : Reading × List Char :=
  if r.pieces.isEmpty then
    match rest with
    | [] => (r.push .leadingDirectories '*', [])
    | '/' :: rest => (r.push .leadingDirectories '/', rest)
    | _ => (r.twoStars, rest)
  else if r.previous == some '/' ||
      (r.inGroup && (r.previous == some ',' || r.previous == some '\x7b')) then
    match rest with
    | [] => (r.directories .everythingBelow '*', [])
    | '/' :: rest' => (r.directories .innerDirectories '/', rest')
    | c :: _ =>
      if r.inGroup && (c == ',' || c == '\x7d') then (r.directories .everythingBelow '*', rest)
      else (r.twoStars, rest)
  else (r.twoStars, rest)

end Reading

/-! ## Character sets -/

/-- The ranges of a set, in reverse, and whether a hyphen has started a range. -/
structure ClassReading where
  ranges : List (Char × Char)
  inRange : Bool

/-- Read one character of a set, which is not the bracket that closes it. At the start of a set a
hyphen stands for itself. -/
def ClassReading.add (r : ClassReading) (first : Bool) (c : Char) : Except GlobError ClassReading :=
  if r.inRange then
    match r.ranges with
    | (low, _) :: ranges =>
      if c < low then .error (.invalidRange low c) else .ok ⟨(low, c) :: ranges, false⟩
    | [] => .ok ⟨[(c, c)], false⟩
  else if c == '-' && !first then .ok ⟨r.ranges, true⟩
  else .ok ⟨(c, c) :: r.ranges, false⟩

/-- The ranges of a set, and what follows the bracket that closes it. -/
def classFrom (r : ClassReading) (first : Bool) :
    List Char → Except GlobError (List (Char × Char) × List Char)
  | [] => .error .unclosedClass
  | c :: cs =>
    if c == ']' && !first then
      .ok ((if r.inRange then ('-', '-') :: r.ranges else r.ranges).reverse, cs)
    else
      match r.add first c with
      | .ok r => classFrom r false cs
      | .error e => .error e

/-- The set that stands behind an opening bracket, and what follows it. -/
def characterSet (cs : List Char) : Except GlobError (GlobPiece × List Char) :=
  match classFrom ⟨[], false⟩ true (if isNegated cs then cs.tail else cs) with
  | .ok (ranges, rest) => .ok (.oneOf (isNegated cs) ranges, rest)
  | .error e => .error e
where
  /-- Whether a mark says that the set holds all other characters. -/
  isNegated (cs : List Char) : Bool :=
    cs.head? == some '!' || cs.head? == some '^'

/-! ## Patterns -/

theorem length_lt_of_classFrom {r : ClassReading} {first : Bool} {cs rest : List Char}
    {ranges : List (Char × Char)} (h : classFrom r first cs = .ok (ranges, rest)) :
    rest.length < cs.length := by
  induction cs generalizing r first with
  | nil => cases h
  | cons c cs ih =>
    rw [classFrom] at h
    split at h
    · cases h
      simp
    · split at h
      · exact Nat.lt_succ_of_lt (ih h)
      · cases h

theorem length_lt_of_characterSet {cs rest : List Char} {piece : GlobPiece}
    (h : characterSet cs = .ok (piece, rest)) : rest.length < cs.length := by
  unfold characterSet at h
  split at h
  · rename_i hc
    cases h
    have := length_lt_of_classFrom hc
    split at this
    · simp at this
      omega
    · exact this
  · cases h

theorem length_doubleStar_le (r : Reading) (rest : List Char) :
    (r.doubleStar rest).2.length ≤ rest.length := by
  unfold Reading.doubleStar
  split
  · split <;> simp
  · split
    · split
      · simp
      · simp
      · split <;> simp
    · simp

/-- Read the rest of a pattern. -/
def readFrom (r : Reading) (cs : List Char) : Except GlobError Reading :=
  match cs with
  | [] => .ok r
  | '?' :: cs => readFrom (r.push .anyByte '?') cs
  | '*' :: '*' :: cs =>
    have := length_doubleStar_le r cs
    readFrom (r.doubleStar cs).1 (r.doubleStar cs).2
  | '*' :: cs => readFrom (r.push .anyText '*') cs
  | '[' :: cs =>
    match h : characterSet cs with
    | .ok (piece, rest) =>
      have := length_lt_of_characterSet h
      readFrom (r.push piece ']') rest
    | .error e => .error e
  | '\x7b' :: cs => readFrom r.openGroup cs
  | '\x7d' :: cs =>
    match r.closeGroup with
    | .ok r => readFrom r cs
    | .error e => .error e
  | ',' :: cs => readFrom r.comma cs
  | ['\\'] => .error .danglingEscape
  | '\\' :: c :: cs => readFrom (r.push (.literal c) c) cs
  | c :: cs => readFrom (r.push (.literal c) c) cs
termination_by cs.length
decreasing_by
  all_goals simp
  all_goals omega

/-- The pattern that a text spells. -/
def parse (pattern : String) : Except GlobError Glob :=
  match readFrom ⟨[], [], none⟩ pattern.toList with
  | .ok r => if r.inGroup then .error .unclosedAlternates else .ok ⟨r.pieces.reverse⟩
  | .error e => .error e

end ZeroAlloc.Glob
