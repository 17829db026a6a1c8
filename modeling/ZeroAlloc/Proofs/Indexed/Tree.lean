import ZeroAlloc.Proofs.Indexed.Levels
import ZeroAlloc.Proofs.Indexed.Text
set_option autoImplicit false

/-! # Sites with their spans

A recogniser that keeps its place as an index gives a site the span of its tokens at once. Where the
indices are those of tokens, the spans are found (`tokenSpan_eq_done`). -/

namespace ZeroAlloc.Indexed

open Text (byteLength byteLength_append)

/-- A text with its tokens. -/
structure Tree where
  source : List Char
  tokens : List Token

namespace Tree

/-- The lexemes of the tokens. -/
def row (t : Tree) : List Lexeme :=
  lexemes t.tokens

/-- The token with an index. -/
def tokenAt (t : Tree) (i : Nat) : Attempt Token :=
  match t.tokens[i]? with
  | some token => .done token
  | none => .fault .index

/-- The span of the tokens from one index through another. -/
def tokenSpan (t : Tree) (first last : Nat) : Attempt Text.Span := do
  let firstToken ← t.tokenAt first
  let lastToken ← t.tokenAt last
  span t.source firstToken.start lastToken.stop

/-- The tokens tile the text. -/
def IsTiled (t : Tree) : Prop :=
  Lexis.Tiles 0 t.source t.tokens

/-- Where the token with an index starts. -/
def start (t : Tree) (i : Nat) : Nat :=
  (t.tokens[i]?.map fun token => token.start).getD 0

/-- Where the token with an index ends. -/
def stop (t : Tree) (i : Nat) : Nat :=
  (t.tokens[i]?.map Token.stop).getD 0

/-- The span that the tokens from one index through another have. -/
def spanOf (t : Tree) (first last : Nat) : Text.Span :=
  .of t.source (t.start first) (t.stop last)

end Tree

/-! ## Sites -/

/-- An initializer list with its span. -/
structure PlacedInitializer where
  span : Text.Span
  contents : List Lexeme

/-- The origin of a site; a call tells at which offset it takes a further argument. -/
inductive PlacedOrigin where
  | explicit
  | implicitInitializer
  | paramArray (insertAt : Nat) (needsSeparator : Bool)

/-- A site with its span. -/
structure PlacedSite where
  span : Text.Span
  origin : PlacedOrigin
  inAttribute : Bool
  element : ElementType
  levels : List ArrayLevel
  initializer : Option PlacedInitializer
  malformed : Bool

/-- A parameter array with all its levels. -/
structure DeclaredArray where
  method : String
  fixed : Nat
  element : ElementType
  levels : List ArrayLevel

/-- A parameter array that is recognised, with all its levels. -/
def DeclaredArray.of (p : ParamArray) : DeclaredArray :=
  ⟨p.method, p.fixed, p.element, p.allocated :: p.inner⟩

/-- An import with its span. -/
structure PlacedImport where
  path : String
  aliasName : Option String
  span : Text.Span

namespace Tree

/-- The initializer list between the brackets with two indices. -/
def initializer (t : Tree) (opening close : Nat) : Attempt PlacedInitializer := do
  let span ← t.tokenSpan opening close
  let contents ← exprTokens t.row (opening + 1) close
  pure ⟨span, contents⟩

/-- A site that is written from one index through another. Its element type is unresolved if one of
its lexemes is malformed. -/
def writtenSite (t : Tree) (origin : PlacedOrigin) (first last : Nat) (element : ElementType)
    (levels : List ArrayLevel) (initializer : Option PlacedInitializer) (malformed : Bool) :
    Attempt PlacedSite := do
  let isBroken ← hasErrorIn t.row first (last + 1)
  let span ← t.tokenSpan first last
  pure {
    span
    origin
    inAttribute := false
    element := if isBroken then { element with resolved := false } else element
    levels
    initializer
    malformed }

/-- The site of an initializer list on a declared array, between the brackets with two indices. -/
def listSite (t : Tree) (element : ElementType) (levels : List ArrayLevel) (opening close : Nat) :
    Attempt PlacedSite := do
  let initializer ← t.initializer opening close
  t.writtenSite .implicitInitializer opening close element levels (some initializer) false

/-- The site of a call from one index through another that passes nothing for a parameter array. -/
def callSite (t : Tree) (p : DeclaredArray) (first close arguments : Nat) :
    Attempt PlacedSite := do
  let bracket ← t.tokenAt close
  let site ← t.tokenSpan first close
  let empty ← span t.source bracket.start bracket.start
  pure {
    span := site
    origin := .paramArray bracket.start (0 < arguments)
    inAttribute := false
    element := p.element
    levels := p.levels
    initializer := some ⟨empty, []⟩
    malformed := false }

/-- The origin of a site, in the text. -/
def placeOrigin (t : Tree) (s : Site) : PlacedOrigin :=
  match s.origin with
  | .explicit => .explicit
  | .implicitInitializer => .implicitInitializer
  | .paramArray needsSeparator => .paramArray (t.start s.last) needsSeparator

/-- The initializer list of a site, in the text. -/
def placeInitializer (t : Tree) (s : Site) (i : Initializer) : PlacedInitializer :=
  match s.origin with
  | .paramArray _ => ⟨.of t.source (t.start i.opening) (t.start s.last), i.contents⟩
  | _ => ⟨t.spanOf i.opening s.last, i.contents⟩

/-- A site of the row, in the text. -/
def place (t : Tree) (s : Site) : PlacedSite where
  span := t.spanOf s.first s.last
  origin := t.placeOrigin s
  inAttribute := s.inAttribute
  element := s.element
  levels := s.levels
  initializer := s.initializer.map (t.placeInitializer s)
  malformed := s.malformed

/-- An import of the row, in the text. -/
def placeImport (t : Tree) (i : Import) : PlacedImport :=
  ⟨i.path, i.aliasName, t.spanOf i.first i.last⟩

/-! ## Spans that are found -/

variable {t : Tree}

theorem length_row (t : Tree) : t.row.length = t.tokens.length := by
  rw [row, lexemes, List.length_map]

theorem tokenAt_eq_done {i : Nat} (hi : i < t.row.length) :
    ∃ token, t.tokenAt i = .done token ∧ t.tokens[i]? = some token := by
  rw [length_row] at hi
  refine ⟨t.tokens[i], ?_, List.getElem?_eq_getElem hi⟩
  rw [tokenAt, List.getElem?_eq_getElem hi]

theorem start_of_getElem? {i : Nat} {token : Token} (h : t.tokens[i]? = some token) :
    t.start i = token.start := by
  rw [start, h]
  rfl

theorem stop_of_getElem? {i : Nat} {token : Token} (h : t.tokens[i]? = some token) :
    t.stop i = token.stop := by
  rw [stop, h]
  rfl

/-- Tokens start and end in the order of their indices. -/
theorem lt_of_lt (ht : t.IsTiled) {i j : Nat} (hij : i < j) (hj : j < t.row.length) :
    t.start i < t.start j ∧ t.stop i < t.stop j := by
  rw [length_row] at hj
  have hi := Nat.lt_trans hij hj
  rw [start_of_getElem? (List.getElem?_eq_getElem hi),
    stop_of_getElem? (List.getElem?_eq_getElem hi), start_of_getElem? (List.getElem?_eq_getElem hj),
    stop_of_getElem? (List.getElem?_eq_getElem hj)]
  have hbefore := List.pairwise_iff_getElem.1 ht.pairwise_stop_le_start i j hi hj hij
  have hfirst := ht.start_lt_stop (List.getElem_mem hi)
  have hsecond := ht.start_lt_stop (List.getElem_mem hj)
  omega

theorem start_le_start_iff (ht : t.IsTiled) {i j : Nat} (hi : i < t.row.length)
    (hj : j < t.row.length) : t.start i ≤ t.start j ↔ i ≤ j := by
  rcases Nat.lt_trichotomy i j with hij | rfl | hij
  · have := lt_of_lt ht hij hj
    omega
  · simp
  · have := lt_of_lt ht hij hi
    omega

theorem stop_le_stop_iff (ht : t.IsTiled) {i j : Nat} (hi : i < t.row.length)
    (hj : j < t.row.length) : t.stop i ≤ t.stop j ↔ i ≤ j := by
  rcases Nat.lt_trichotomy i j with hij | rfl | hij
  · have := lt_of_lt ht hij hj
    omega
  · simp
  · have := lt_of_lt ht hij hi
    omega

theorem tokenSpan_eq_done (ht : t.IsTiled) {first last : Nat} (hle : first ≤ last)
    (hlast : last < t.row.length) : t.tokenSpan first last = .done (t.spanOf first last) := by
  obtain ⟨firstToken, hfirstDone, hfirst⟩ := tokenAt_eq_done (Nat.lt_of_le_of_lt hle hlast)
  obtain ⟨lastToken, hlastDone, hlast⟩ := tokenAt_eq_done hlast
  obtain ⟨before, piece, behind, _, hsource, hstart, hstop⟩ := ht.exists_between hfirst hlast hle
  rw [tokenSpan, hfirstDone, Attempt.done_bind, hlastDone, Attempt.done_bind, spanOf,
    start_of_getElem? hfirst, stop_of_getElem? hlast, hstart, hstop, hsource, span_append]

theorem initializer_eq_done (ht : t.IsTiled) {opening close : Nat} (hlt : opening < close)
    (hclose : close < t.row.length) :
    t.initializer opening close =
      .done ⟨t.spanOf opening close, withoutNewlines (between t.row (opening + 1) close)⟩ := by
  rw [initializer, tokenSpan_eq_done ht (Nat.le_of_lt hlt) hclose, Attempt.done_bind,
    exprTokens_eq_done hlt (Nat.le_of_lt hclose)]
  rfl

/-- The initializer list of a group has the contents of the group. -/
theorem initializer_of_group (ht : t.IsTiled) {b : BracketPair} {opening : Nat}
    {inside rest : List Lexeme} (h : b.group? (t.row.drop opening) = some (inside, rest)) :
    t.initializer opening (opening + inside.length + 1) =
      .done ⟨t.spanOf opening (opening + inside.length + 1), withoutNewlines inside⟩ := by
  obtain ⟨hclose, hinside, _⟩ := between_of_group h
  rw [initializer_eq_done ht (by omega) hclose, hinside]

theorem writtenSite_eq_done (ht : t.IsTiled) {first last : Nat} (hle : first ≤ last)
    (hlast : last < t.row.length) (origin : PlacedOrigin) (element : ElementType)
    (levels : List ArrayLevel) (initializer : Option PlacedInitializer) (malformed : Bool) :
    t.writtenSite origin first last element levels initializer malformed =
      .done ⟨t.spanOf first last, origin, false,
        element.readWith (between t.row first (last + 1)), levels, initializer, malformed⟩ := by
  rw [writtenSite, hasErrorIn_eq_done (by omega) hlast, Attempt.done_bind,
    tokenSpan_eq_done ht hle hlast]
  rfl

/-- A creation expression that ends with its type. -/
theorem writtenSite_type (ht : t.IsTiled) {i : Nat} (hi : i < t.row.length) {rest : List Lexeme}
    (hrest : rest <:+ t.row.drop (i + 1)) (element : ElementType) (allocated : ArrayLevel)
    (inner : List ArrayLevel) (malformed : Bool) :
    t.writtenSite .explicit i (behind t.row (i + 1) rest - 1) element (allocated :: inner) none
        malformed =
      .done (t.place (Site.shift i
        { first := 0
          last := (t.row.drop i).length - rest.length - 1
          origin := .explicit
          inAttribute := false
          element := element.readWith
            ((t.row.drop i).take ((t.row.drop i).length - rest.length))
          allocated
          inner
          initializer := none
          malformed })) := by
  obtain ⟨width, hwidth, hstop, -⟩ := exists_width hi hrest
  have hlength : (t.row.drop i).length = rest.length + (width + 1) := by
    rw [List.length_drop]
    omega
  have hlast : width + i = i + width := Nat.add_comm _ _
  have hspan : i + width + 1 - i = width + 1 := by omega
  rw [hstop, Nat.add_sub_cancel, writtenSite_eq_done ht (by omega) (by omega)]
  simp [place, placeOrigin, Site.shift, Site.levels, hlength, between, hlast, hspan]

/-- A creation expression that ends with the list behind its type. -/
theorem writtenSite_group (ht : t.IsTiled) {i : Nat} (hi : i < t.row.length)
    {rest contents after : List Lexeme} (hrest : rest <:+ t.row.drop (i + 1))
    (hgroup : BracketPair.braces.group? rest = some (contents, after)) (element : ElementType)
    (allocated : ArrayLevel) (inner : List ArrayLevel) (shown : List Lexeme) (malformed : Bool) :
    t.writtenSite .explicit i (behind t.row (i + 1) rest + contents.length + 1) element
        (allocated :: inner)
        (some ⟨t.spanOf (behind t.row (i + 1) rest)
          (behind t.row (i + 1) rest + contents.length + 1), shown⟩) malformed =
      .done (t.place (Site.shift i
        { first := 0
          last := (t.row.drop i).length - after.length - 1
          origin := .explicit
          inAttribute := false
          element := element.readWith
            ((t.row.drop i).take ((t.row.drop i).length - after.length))
          allocated
          inner
          initializer := some ⟨(t.row.drop i).length - rest.length, shown⟩
          malformed })) := by
  obtain ⟨width, hwidth, hstop, -⟩ := exists_width hi hrest
  obtain ⟨_, _, _, _, hcontents⟩ := BracketPair.eq_append_of_group hgroup
  have hafter := congrArg List.length hcontents
  simp only [List.cons_append, List.length_cons, List.length_append] at hafter
  have hlength : (t.row.drop i).length = rest.length + (width + 1) := by
    rw [List.length_drop]
    omega
  have hlast : rest.length + (width + 1) - after.length - 1 + i =
      i + width + 1 + contents.length + 1 := by omega
  have hspan : i + width + 1 + contents.length + 1 + 1 - i =
      rest.length + (width + 1) - after.length := by omega
  have hopening : width + 1 + i = i + width + 1 := by omega
  rw [hstop, writtenSite_eq_done ht (by omega) (by omega)]
  simp [place, placeOrigin, placeInitializer, Site.shift, Site.levels, hlength, between, hlast,
    hspan, hopening]

/-- The brackets of a list are not malformed. -/
theorem readWith_group {b : BracketPair} {opening : Nat} {inside rest : List Lexeme}
    (element : ElementType) (h : b.group? (t.row.drop opening) = some (inside, rest)) :
    element.readWith (between t.row opening (opening + inside.length + 1 + 1)) =
      element.readWith inside := by
  obtain ⟨o, c, hopen, hclose, hdrop⟩ := BracketPair.eq_append_of_group h
  have hpunct {l : Lexeme} {p : String} (hl : l.isPunct p = true) : l.isError = false := by
    simp only [Lexeme.isPunct, Bool.and_eq_true, decide_eq_true_eq] at hl
    simp [Lexeme.isError, hl.1]
  have hbetween : between t.row opening (opening + inside.length + 1 + 1) =
      o :: (inside ++ [c]) := by
    rw [between, hdrop, show opening + inside.length + 1 + 1 - opening = inside.length + 1 + 1 by
      omega, List.cons_append, List.take_succ_cons, List.take_length_add_append]
    rfl
  rw [hbetween, ElementType.readWith, ElementType.readWith, List.any_cons, List.any_append,
    List.any_cons, List.any_nil, hpunct hopen, hpunct hclose, Bool.false_or, Bool.or_false,
    Bool.or_false]

theorem listSite_eq_done (ht : t.IsTiled) {b : BracketPair} {opening : Nat}
    {inside rest : List Lexeme} (element : ElementType) (levels : List ArrayLevel)
    (h : b.group? (t.row.drop opening) = some (inside, rest)) :
    t.listSite element levels opening (opening + inside.length + 1) =
      .done ⟨t.spanOf opening (opening + inside.length + 1), .implicitInitializer, false,
        element.readWith inside, levels,
        some ⟨t.spanOf opening (opening + inside.length + 1), withoutNewlines inside⟩, false⟩ := by
  obtain ⟨hclose, _, _⟩ := between_of_group h
  rw [listSite, initializer_of_group ht h, Attempt.done_bind,
    writtenSite_eq_done ht (by omega) hclose, readWith_group element h]

/-- The list of a declaration, as a site of the place that it is `opening` lexemes behind. -/
theorem listSite_place (ht : t.IsTiled) {b : BracketPair} {i opening start : Nat}
    (hstart : i + opening = start) {inside rest : List Lexeme} (element : ElementType)
    (allocated : ArrayLevel) (inner : List ArrayLevel)
    (h : b.group? (t.row.drop start) = some (inside, rest)) :
    t.listSite element (allocated :: inner) start (start + inside.length + 1) =
      .done (t.place (Site.shift i
        { first := opening
          last := opening + inside.length + 1
          origin := .implicitInitializer
          inAttribute := false
          element := element.readWith inside
          allocated
          inner
          initializer := some ⟨opening, withoutNewlines inside⟩
          malformed := false })) := by
  have hopening : opening + i = start := by omega
  have hlast : opening + inside.length + 1 + i = start + inside.length + 1 := by omega
  rw [listSite_eq_done ht _ _ h]
  simp only [place, placeOrigin, placeInitializer, Site.shift, Site.levels, Option.map_some,
    hopening, hlast]

theorem callSite_eq_done (ht : t.IsTiled) (p : ParamArray) {first : Nat} {inside : List Lexeme}
    (hclose : first + inside.length + 2 < t.row.length) :
    t.callSite (.of p) first (first + inside.length + 2) p.fixed =
      .done (t.place ((p.callSite inside).shift first)) := by
  obtain ⟨bracket, hdone, hbracket⟩ := tokenAt_eq_done hclose
  have hstart := start_of_getElem? hbracket
  -- the bracket starts at a boundary, and so does the empty span in front of it
  obtain ⟨before, piece, behind, _, hsource, hbefore, _⟩ :=
    ht.exists_between hbracket hbracket (Nat.le_refl _)
  have hempty := span_append before [] (piece ++ behind)
  rw [List.append_nil, List.nil_append, ← hsource, ← hbefore] at hempty
  rw [callSite, hdone, Attempt.done_bind, tokenSpan_eq_done ht (by omega) hclose,
    Attempt.done_bind, hempty, Attempt.done_bind]
  have hlast : inside.length + 2 + first = first + inside.length + 2 := by omega
  simp only [place, placeOrigin, placeInitializer, Site.shift, ParamArray.callSite, hlast, hstart,
    Option.map_some, Nat.zero_add, Site.levels, DeclaredArray.of]
  rfl

end Tree

end ZeroAlloc.Indexed
