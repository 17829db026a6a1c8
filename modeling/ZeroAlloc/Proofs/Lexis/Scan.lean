import Mathlib.Logic.Relation
import ZeroAlloc.Document
import ZeroAlloc.Proofs.Lexis.Patterns
import ZeroAlloc.Proofs.Lexis.Tiling
set_option autoImplicit false

/-! # The scan of a text

The lexer goes through a text by byte offsets. At each offset it takes what the first expression
matches that matches anything there, or a single character if there is none, and it remembers
whether any of that was malformed. `Cut` says into which pieces this divides a text; the loop comes
to the end of the text with exactly the tokens among them (`Cut.reaches`), and the tokens of a
document are those of such a scan (`isLexed_read`). -/

namespace ZeroAlloc

open Text (byteLength byteLength_append)

/-- The lexical expressions, each with the class of its lexemes. -/
def Language.patterns : Language → List (Option LexemeKind × Lexis.Pattern)
  | .csharp => Lexis.CSharp.patterns
  | .visualBasic => Lexis.VisualBasic.patterns

theorem Language.forall₂_rules_patterns (language : Language) :
    List.Forall₂ Lexis.Rule.Agrees language.rules language.patterns := by
  cases language with
  | csharp => exact Lexis.CSharp.forall₂_rules_patterns
  | visualBasic => exact Lexis.VisualBasic.forall₂_rules_patterns

namespace Lexis

/-! ## The first match -/

/-- The class of the first expression that matches at least one character at the start of a text,
and the number of characters that it matches. -/
def firstMatch? (patterns : List (Option LexemeKind × Pattern)) (cs : List Char) :
    Option (Option LexemeKind × Nat) :=
  patterns.findSome? fun written => ((written.2.shape cs).filter (0 < ·)).map (written.1, ·)

/-- A match covers some characters of the text, and no more than there are. -/
theorem firstMatch?_bounds {patterns : List (Option LexemeKind × Pattern)} {cs : List Char}
    {kind : Option LexemeKind} {n : Nat} (h : firstMatch? patterns cs = some (kind, n)) :
    0 < n ∧ n ≤ cs.length := by
  obtain ⟨⟨_, p⟩, -, hp⟩ := List.exists_of_findSome?_eq_some h
  obtain ⟨m, hm, heq⟩ := Option.map_eq_some_iff.1 hp
  obtain ⟨hshape, hpos⟩ := Option.filter_eq_some_iff.1 hm
  cases heq
  obtain ⟨covered, rest, rfl, -, rfl⟩ := p.isWithin_true.exists_of_shape hshape
  exact ⟨by simpa using hpos, by simp⟩

/-- The first rule that applies stands for the first expression that matches anything. -/
theorem firstRule_eq {rules : List Rule} {patterns : List (Option LexemeKind × Pattern)}
    (h : List.Forall₂ Rule.Agrees rules patterns) (cs : List Char) :
    firstRule rules cs =
      match firstMatch? patterns cs with
      | some (kind, n) => (kind, n - 1)
      | none => (some .error, 0) := by
  induction h with
  | nil => rfl
  | @cons rule written rules patterns hagrees _ ih =>
    rw [firstMatch?, List.findSome?_cons, hagrees.shape, hagrees.kind, Shape.ofExtent]
    rcases hextent : rule.extent cs with _ | n
    · rw [firstRule_of_extent_eq_zero hextent, ih]
      rfl
    · rw [firstRule_of_extent hextent]
      rfl

/-! ## Pieces -/

/-- Characters of a text in a row, from a byte offset on, that one expression covers. They are
dropped if the expression has no class. -/
structure Piece where
  kind : Option LexemeKind
  text : List Char
  start : Nat

namespace Piece

/-- The offset just behind the piece. -/
def stop (p : Piece) : Nat :=
  p.start + byteLength p.text

/-- The token that the piece gives, if it is not dropped. -/
def token? (p : Piece) : Option Token :=
  p.kind.map fun kind => ⟨⟨kind, String.ofList p.text⟩, p.start⟩

/-- Whether the piece is malformed. -/
def isError (p : Piece) : Bool :=
  p.kind == some .error

@[simp] theorem token?_mk_some (kind : LexemeKind) (text : List Char) (start : Nat) :
    token? ⟨some kind, text, start⟩ = some ⟨⟨kind, String.ofList text⟩, start⟩ := rfl

@[simp] theorem token?_mk_none (text : List Char) (start : Nat) :
    token? ⟨none, text, start⟩ = none := rfl

theorem start_eq_of_token? {p : Piece} {t : Token} (h : p.token? = some t) :
    t.start = p.start ∧ t.stop = p.stop ∧ t.text.toList = p.text ∧ p.kind = some t.kind := by
  obtain ⟨kind, hkind, rfl⟩ := Option.map_eq_some_iff.1 h
  refine ⟨rfl, ?_, String.toList_ofList, hkind⟩
  rw [Token.stop_eq, String.toList_ofList, stop]

end Piece

/-- What the expressions give at the start of a text, in front of the rest of it: what the first one
of them matches that matches anything, or else one character, which is an error. -/
def IsNext (patterns : List (Option LexemeKind × Pattern)) (kind : Option LexemeKind)
    (covered rest : List Char) : Prop :=
  firstMatch? patterns (covered ++ rest) = some (kind, covered.length) ∨
    firstMatch? patterns (covered ++ rest) = none ∧ kind = some .error ∧ covered.length = 1

/-- The pieces into which the expressions cut a text that starts at an offset. -/
inductive Cut (patterns : List (Option LexemeKind × Pattern)) : Nat → List Char → List Piece → Prop
  where
  | nil (start : Nat) : Cut patterns start [] []
  | cons {start : Nat} {kind : Option LexemeKind} {covered rest : List Char} {ps : List Piece}
      (nonempty : covered ≠ []) (next : IsNext patterns kind covered rest)
      (more : Cut patterns (start + byteLength covered) rest ps) :
      Cut patterns start (covered ++ rest) (⟨kind, covered, start⟩ :: ps)

/-- The pieces into which the rules cut a text that starts at an offset. -/
def piecesFrom (rules : List Rule) (start : Nat) : List Char → List Piece
  | [] => []
  | c :: cs =>
    let (kind, more) := firstRule rules (c :: cs)
    let covered := c :: cs.take more
    ⟨kind, covered, start⟩ :: piecesFrom rules (start + byteLength covered) (cs.drop more)
termination_by cs => cs.length
decreasing_by
  simp only [List.length_drop, List.length_cons]
  omega

/-- The tokens of a text are its pieces that are not dropped. -/
theorem filterMap_token?_piecesFrom (rules : List Rule) (start : Nat) (cs : List Char) :
    (piecesFrom rules start cs).filterMap Piece.token? = tokensFrom rules start cs := by
  fun_induction piecesFrom rules start cs with
  | case1 => rw [tokensFrom, List.filterMap_nil]
  | case2 start c cs kind more hfirst covered ih =>
    rw [tokensFrom, hfirst]
    cases kind with
    | none => rw [List.filterMap_cons_none (Piece.token?_mk_none ..), ih]
    | some kind => rw [List.filterMap_cons_some (Piece.token?_mk_some ..), ih]

section Rules

variable {rules : List Rule} {patterns : List (Option LexemeKind × Pattern)}

/-- What the first rule covers of a text that is not empty is what comes next. -/
theorem isNext_of_firstRule (h : List.Forall₂ Rule.Agrees rules patterns) {c : Char}
    {cs : List Char} {kind : Option LexemeKind} {more : Nat}
    (hfirst : firstRule rules (c :: cs) = (kind, more)) :
    IsNext patterns kind (c :: cs.take more) (cs.drop more) := by
  rw [firstRule_eq h] at hfirst
  rw [IsNext, List.cons_append, List.take_append_drop]
  split at hfirst
  · rename_i kind' n hmatch
    have hbounds := firstMatch?_bounds hmatch
    rw [List.length_cons] at hbounds
    cases hfirst
    rw [hmatch, List.length_cons, List.length_take]
    exact .inl (by congr 2; omega)
  · rename_i hmatch
    cases hfirst
    exact .inr ⟨hmatch, rfl, by simp⟩

theorem cut_piecesFrom (h : List.Forall₂ Rule.Agrees rules patterns) (start : Nat)
    (cs : List Char) : Cut patterns start cs (piecesFrom rules start cs) := by
  fun_induction piecesFrom rules start cs with
  | case1 start => exact .nil start
  | case2 start c cs kind more hfirst covered ih =>
    have hcut := Cut.cons (List.cons_ne_nil _ _) (isNext_of_firstRule h hfirst) ih
    rwa [List.cons_append, List.take_append_drop] at hcut

end Rules

namespace Cut

variable {patterns : List (Option LexemeKind × Pattern)} {start : Nat} {cs : List Char}
  {ps : List Piece}

/-- The pieces are all the text. -/
theorem flatMap_text (h : Cut patterns start cs ps) : ps.flatMap Piece.text = cs := by
  induction h with
  | nil => rfl
  | cons _ _ _ ih => rw [List.flatMap_cons, ih]

/-- A piece is what comes next at its place. -/
theorem exists_split (h : Cut patterns start cs ps) {p : Piece} (hp : p ∈ ps) :
    ∃ pre rest, cs = pre ++ (p.text ++ rest) ∧ p.start = start + byteLength pre ∧ p.text ≠ [] ∧
      IsNext patterns p.kind p.text rest := by
  induction h with
  | nil => cases hp
  | @cons start kind covered rest ps nonempty next _ ih =>
    rcases List.mem_cons.1 hp with rfl | hp
    · exact ⟨[], rest, rfl, rfl, nonempty, next⟩
    · obtain ⟨pre, post, rfl, hstart, hpiece⟩ := ih hp
      refine ⟨covered ++ pre, post, by simp, ?_, hpiece⟩
      rw [hstart, byteLength_append, Nat.add_assoc]

theorem start_le (h : Cut patterns start cs ps) {p : Piece} (hp : p ∈ ps) : start ≤ p.start := by
  obtain ⟨pre, _, _, hstart, _⟩ := h.exists_split hp
  omega

theorem start_lt_stop (h : Cut patterns start cs ps) {p : Piece} (hp : p ∈ ps) :
    p.start < p.stop := by
  obtain ⟨_, _, _, _, hnonempty, _⟩ := h.exists_split hp
  exact Nat.lt_add_of_pos_right (Nat.pos_of_ne_zero (mt Text.eq_nil_of_byteLength hnonempty))

theorem stop_le (h : Cut patterns start cs ps) {p : Piece} (hp : p ∈ ps) :
    p.stop ≤ start + byteLength cs := by
  obtain ⟨pre, rest, rfl, hstart, _⟩ := h.exists_split hp
  rw [Piece.stop, hstart, byteLength_append, byteLength_append]
  omega

/-- Each piece ends before the next one starts. -/
theorem pairwise_stop_le_start (h : Cut patterns start cs ps) :
    ps.Pairwise fun p q => p.stop ≤ q.start := by
  induction h with
  | nil => exact .nil
  | cons _ _ more ih => exact .cons (fun q hq => more.start_le hq) ih

/-- A byte of the text lies in one piece. -/
theorem existsUnique_piece (h : Cut patterns start cs ps) {n : Nat} (hstart : start ≤ n)
    (hstop : n < start + byteLength cs) : ∃! p, p ∈ ps ∧ p.start ≤ n ∧ n < p.stop := by
  induction h with
  | nil start =>
    rw [byteLength] at hstop
    omega
  | @cons start kind covered rest ps _ _ more ih =>
    by_cases hn : n < start + byteLength covered
    · refine ⟨⟨kind, covered, start⟩, ⟨List.mem_cons_self, hstart, hn⟩, ?_⟩
      rintro p ⟨hp, hple, -⟩
      rcases List.mem_cons.1 hp with rfl | hp
      · rfl
      · have := more.start_le hp
        omega
    · rw [byteLength_append] at hstop
      obtain ⟨p, ⟨hp, hinside⟩, hunique⟩ := ih (Nat.not_lt.1 hn) (by omega)
      refine ⟨p, ⟨List.mem_cons_of_mem _ hp, hinside⟩, ?_⟩
      rintro q ⟨hq, hqle, hqlt⟩
      rcases List.mem_cons.1 hq with rfl | hq
      · exact absurd hqlt hn
      · exact hunique q ⟨hq, hqle, hqlt⟩

end Cut

/-! ## The loop -/

/-- What the loop of the lexer keeps: the offset that it has come to, the tokens up to there, and
whether any of them is malformed. -/
structure Scan where
  offset : Nat
  tokens : List Token
  hasErrors : Bool

namespace Scan

/-- Nothing has been read. -/
def initial : Scan := ⟨0, [], false⟩

/-- Go on behind a piece of the text. -/
def pass (s : Scan) (kind : Option LexemeKind) (covered : List Char) : Scan where
  offset := s.offset + byteLength covered
  tokens := s.tokens ++ (Piece.token? ⟨kind, covered, s.offset⟩).toList
  hasErrors := s.hasErrors || kind == some .error

/-- One round of the loop, unless it has come to the end of the text. -/
def next? (patterns : List (Option LexemeKind × Pattern)) (source : List Char) (s : Scan) :
    Option Scan :=
  if s.offset < byteLength source then
    let rest := Text.dropBytes s.offset source
    match firstMatch? patterns rest with
    | some (kind, n) => some (s.pass kind (rest.take n))
    | none => some (s.pass (some .error) (rest.take 1))
  else none

/-- The loop goes from one state to another. -/
def Reaches (patterns : List (Option LexemeKind × Pattern)) (source : List Char) :
    Scan → Scan → Prop :=
  Relation.ReflTransGen fun s t => s.next? patterns source = some t

variable {patterns : List (Option LexemeKind × Pattern)}

/-- One round goes behind what comes next. -/
theorem next?_eq_pass {pre covered rest : List Char} {s : Scan} {kind : Option LexemeKind}
    (hoffset : s.offset = byteLength pre) (hcovered : covered ≠ [])
    (hnext : IsNext patterns kind covered rest) :
    s.next? patterns (pre ++ (covered ++ rest)) = some (s.pass kind covered) := by
  have hinside : s.offset < byteLength (pre ++ (covered ++ rest)) := by
    have := mt Text.eq_nil_of_byteLength hcovered
    rw [hoffset, byteLength_append, byteLength_append]
    omega
  rw [next?, if_pos hinside]
  dsimp only
  rw [hoffset, Text.dropBytes_append]
  rcases hnext with hmatch | ⟨hmatch, rfl, hone⟩
  · rw [hmatch]
    exact congrArg (some <| s.pass kind ·) (List.take_left' rfl)
  · rw [hmatch]
    exact congrArg (some <| s.pass _ ·) (List.take_left' hone)

/-- At the end of the text there is no further round. -/
theorem next?_eq_none {source : List Char} {s : Scan} (h : s.offset = byteLength source) :
    s.next? patterns source = none := by
  rw [next?, if_neg (by omega)]

end Scan

/-- The loop comes to the end of the text, with the tokens among its pieces. -/
theorem Cut.reaches {patterns : List (Option LexemeKind × Pattern)} {start : Nat} {cs : List Char}
    {ps : List Piece} (h : Cut patterns start cs ps) {pre : List Char} {s : Scan}
    (hstart : start = byteLength pre) (hoffset : s.offset = byteLength pre) :
    s.Reaches patterns (pre ++ cs)
      ⟨byteLength (pre ++ cs), s.tokens ++ ps.filterMap Piece.token?,
        s.hasErrors || ps.any Piece.isError⟩ := by
  induction h generalizing pre s with
  | nil =>
    rw [List.append_nil, List.filterMap_nil, List.append_nil, List.any_nil, Bool.or_false,
      ← hoffset]
    exact .refl
  | @cons start kind covered rest ps nonempty next more ih =>
    refine .head (Scan.next?_eq_pass hoffset nonempty next) ?_
    have hpass : (s.pass kind covered).offset = byteLength (pre ++ covered) := by
      rw [Scan.pass, byteLength_append, hoffset]
    have hmore := ih (by rw [hstart, byteLength_append]) hpass
    rw [List.append_assoc] at hmore
    have htokens : s.tokens ++ (⟨kind, covered, start⟩ :: ps).filterMap Piece.token? =
        (s.pass kind covered).tokens ++ ps.filterMap Piece.token? := by
      rw [Scan.pass, hoffset, ← hstart]
      cases kind with
      | none => rw [List.filterMap_cons_none (Piece.token?_mk_none ..)]; simp
      | some kind => rw [List.filterMap_cons_some (Piece.token?_mk_some ..)]; simp
    rw [htokens, List.any_cons, Piece.isError, ← Bool.or_assoc]
    exact hmore

/-! ## Texts as the lexer reads them -/

/-- The lexer has read the text with these expressions: it came to the end of the text, with the
tokens and the flag, and cut the text into the pieces on the way. -/
structure IsLexed (patterns : List (Option LexemeKind × Pattern)) (source : String)
    (pieces : List Piece) (tokens : List Token) (hasErrors : Bool) : Prop where
  reaches : Scan.initial.Reaches patterns source.toList
    ⟨byteLength source.toList, tokens, hasErrors⟩
  /-- The loop stops there. -/
  next?_eq_none : Scan.next? patterns source.toList
    ⟨byteLength source.toList, tokens, hasErrors⟩ = none
  flatMap_text : pieces.flatMap Piece.text = source.toList
  /-- A piece is what comes next at its place. -/
  next : ∀ p ∈ pieces, ∃ before behind, source.toList = before ++ (p.text ++ behind) ∧
    p.start = byteLength before ∧ IsNext patterns p.kind p.text behind
  pairwise_pieces : pieces.Pairwise fun p q => p.stop ≤ q.start
  /-- A byte of the text lies in one piece, which is a token or dropped. -/
  byte : ∀ n < byteLength source.toList, ∃! p, p ∈ pieces ∧ p.start ≤ n ∧ n < p.stop
  tokens_eq : tokens = pieces.filterMap Piece.token?
  pairwise_tokens : tokens.Pairwise fun t u => t.start < u.start ∧ t.stop ≤ u.start
  token : ∀ t ∈ tokens, t.start < t.stop ∧ t.stop ≤ byteLength source.toList ∧
    Text.isBoundary t.start source.toList = true ∧ Text.isBoundary t.stop source.toList = true ∧
    t.text.toList = Text.sliceBytes source.toList t.start t.stop
  hasErrors_iff : hasErrors = true ↔ ∃ t ∈ tokens, t.kind = .error

/-- The pieces of a text are what the lexer has read. -/
theorem Cut.isLexed {patterns : List (Option LexemeKind × Pattern)} {source : String}
    {pieces : List Piece} (h : Cut patterns 0 source.toList pieces) :
    IsLexed patterns source pieces (pieces.filterMap Piece.token?) (pieces.any Piece.isError) where
  reaches := @Cut.reaches patterns 0 _ _ h [] .initial rfl rfl
  next?_eq_none := Scan.next?_eq_none rfl
  flatMap_text := h.flatMap_text
  next p hp := by
    obtain ⟨before, behind, hsource, hstart, -, hnext⟩ := h.exists_split hp
    exact ⟨before, behind, hsource, by rw [hstart, Nat.zero_add], hnext⟩
  pairwise_pieces := h.pairwise_stop_le_start
  byte n hn := h.existsUnique_piece (Nat.zero_le n) (by rwa [Nat.zero_add])
  tokens_eq := rfl
  pairwise_tokens := by
    refine List.pairwise_filterMap.2 ?_
    refine h.pairwise_stop_le_start.imp_of_mem fun {p q} hp _ hpq t ht u hu => ?_
    obtain ⟨htstart, htstop, -⟩ := Piece.start_eq_of_token? ht
    obtain ⟨hustart, -⟩ := Piece.start_eq_of_token? hu
    have := h.start_lt_stop hp
    omega
  token t ht := by
    obtain ⟨p, hp, htoken⟩ := List.mem_filterMap.1 ht
    obtain ⟨hstart, hstop, htext, -⟩ := Piece.start_eq_of_token? htoken
    obtain ⟨before, behind, hsource, hbefore, -⟩ := h.exists_split hp
    rw [Nat.zero_add] at hbefore
    have hstop' : p.stop = byteLength before + byteLength p.text := by rw [Piece.stop, hbefore]
    have hle := h.stop_le hp
    rw [Nat.zero_add] at hle
    refine ⟨?_, ?_, ?_, ?_, ?_⟩
    · rw [hstart, hstop]
      exact h.start_lt_stop hp
    · rwa [hstop]
    · rw [hstart, hbefore, hsource]
      exact Text.isBoundary_append _ _
    · rw [hstop, hstop', hsource, ← List.append_assoc, ← byteLength_append]
      exact Text.isBoundary_append _ _
    · rw [hstart, hstop, hstop', hbefore, hsource, Text.sliceBytes_append, htext]
  hasErrors_iff := by
    rw [List.any_eq_true]
    constructor
    · rintro ⟨⟨kind, text, start⟩, hp, herror⟩
      obtain rfl : kind = some .error := by simpa [Piece.isError] using herror
      exact ⟨_, List.mem_filterMap.2 ⟨_, hp, Piece.token?_mk_some ..⟩, rfl⟩
    · rintro ⟨t, ht, herror⟩
      obtain ⟨p, hp, htoken⟩ := List.mem_filterMap.1 ht
      obtain ⟨-, -, -, hkind⟩ := Piece.start_eq_of_token? htoken
      exact ⟨p, hp, by rw [Piece.isError, hkind, herror]; rfl⟩

end Lexis

namespace Document

/-- The pieces into which the lexer cuts the text. -/
def pieces (doc : Document) : List Lexis.Piece :=
  Lexis.piecesFrom doc.language.rules 0 doc.source.toList

theorem cut_pieces (doc : Document) :
    Lexis.Cut doc.language.patterns 0 doc.source.toList doc.pieces :=
  Lexis.cut_piecesFrom doc.language.forall₂_rules_patterns 0 doc.source.toList

/-- Reading a document is reading its text to the end: the pieces of the text between the tokens of
the document are dropped, and the document has errors if the loop has met one. -/
theorem isLexed_read (language : Language) (path source : String) :
    Lexis.IsLexed language.patterns source (read language path source).pieces
      (read language path source).tokens.toList (read language path source).hasErrors := by
  have hlexed := (read language path source).cut_pieces.isLexed
  have hread : (read language path source).tokens.toList =
      (read language path source).pieces.filterMap Lexis.Piece.token? :=
    (Lexis.filterMap_token?_piecesFrom language.rules 0 source.toList).symm
  have herrors : (read language path source).hasErrors =
      (read language path source).pieces.any Lexis.Piece.isError := by
    rw [Bool.eq_iff_iff, hlexed.hasErrors_iff, ← hread, hasErrors, ← Array.any_toList,
      List.any_eq_true]
    simp [Lexeme.isError]
  rw [hread, herrors]
  exact hlexed

end Document

end ZeroAlloc
