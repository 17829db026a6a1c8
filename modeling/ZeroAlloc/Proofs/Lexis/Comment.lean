import ZeroAlloc.Proofs.Lexis.Scan
set_option autoImplicit false

/-! # Comments

Where a text goes on with a comment mark of its language, the next piece is a comment. Inside a
piece such a mark stands only in comments, literals, malformed text and preprocessor directives; a
`rem` can also be a part of a name or number, since these may hold characters that are not part of a
word. -/

namespace ZeroAlloc.Lexis

/-! ## Characters that a pattern does not have -/

namespace Pattern

/-- The pattern has no class of characters with `x`. -/
def excludes (x : Char) : Pattern → Bool
  | empty => true
  | one p => !p x
  | wordEnd => true
  | andThen a b => a.excludes x && b.excludes x
  | orElse a b => a.excludes x && b.excludes x
  | many a => a.excludes x
  | few a => a.excludes x

theorem isWithin_of_excludes {x : Char} {p : Pattern} (h : p.excludes x = true) :
    p.IsWithin (· ≠ x) := by
  induction p with
  | empty | wordEnd => trivial
  | one p =>
    rintro c hc rfl
    rw [excludes, hc] at h
    cases h
  | andThen a b iha ihb | orElse a b iha ihb =>
    rw [excludes, Bool.and_eq_true] at h
    exact ⟨iha h.1, ihb h.2⟩
  | many a ih | few a ih => exact ih h

theorem not_mem_of_excludes {x : Char} {p : Pattern} (h : p.excludes x = true)
    {covered rest : List Char} (hshape : p.shape (covered ++ rest) = some covered.length) :
    x ∉ covered := fun hmem =>
  (isWithin_of_excludes h).forall_mem hshape x hmem rfl

/-- A match of a pattern that starts with a character starts with this character. -/
theorem exists_of_shape_one_andThen {q : Char → Bool} {p : Pattern} {covered rest : List Char}
    (h : ((one q).andThen p).shape (covered ++ rest) = some covered.length) :
    ∃ c more, q c = true ∧ covered = c :: more ∧ p.shape (more ++ rest) = some more.length := by
  rw [shape, andThen_before, one_before] at h
  cases covered with
  | nil =>
    cases rest with
    | nil => cases h
    | cons c rest =>
      rw [List.nil_append, Shape.one_andThen_cons] at h
      split at h
      · obtain ⟨m, -, hm⟩ := Option.map_eq_some_iff.1 h
        rw [List.length_nil] at hm
        omega
      · cases h
  | cons c more =>
    rw [List.cons_append, Shape.one_andThen_cons] at h
    split at h
    · rename_i hc
      obtain ⟨m, hm, hlength⟩ := Option.map_eq_some_iff.1 h
      rw [List.length_cons] at hlength
      obtain rfl : m = more.length := by omega
      exact ⟨c, more, hc, rfl, hm⟩
    · cases h

theorem exists_of_shape_char_andThen {c : Char} {p : Pattern} {covered rest : List Char}
    (h : ((char c).andThen p).shape (covered ++ rest) = some covered.length) :
    ∃ more, covered = c :: more ∧ p.shape (more ++ rest) = some more.length := by
  obtain ⟨d, more, hd, rfl, hmore⟩ := exists_of_shape_one_andThen h
  obtain rfl : d = c := by simpa using hd
  exact ⟨more, rfl, hmore⟩

theorem length_of_shape_one {q : Char → Bool} {cs : List Char} {n : Nat}
    (h : (one q).shape cs = some n) : n = 1 := by
  rw [shape, one_before, Shape.andThen_nothing] at h
  cases cs with
  | nil => cases h
  | cons c cs =>
    rw [Shape.one_cons] at h
    split at h
    · exact (Option.some.inj h).symm
    · cases h

end Pattern

/-! ## What comes next -/

section IsNext

variable {patterns : List (Option LexemeKind × Pattern)} {kind : Option LexemeKind}
  {covered rest : List Char}

/-- What comes next is a match of one of the expressions, or a single character. -/
theorem IsNext.exists_pattern (h : IsNext patterns kind covered rest) :
    (∃ p, (kind, p) ∈ patterns ∧ p.shape (covered ++ rest) = some covered.length) ∨
      kind = some .error := by
  rcases h with hmatch | ⟨-, hkind, -⟩
  · obtain ⟨⟨kind', p⟩, hmem, hp⟩ := List.exists_of_findSome?_eq_some hmatch
    obtain ⟨n, hn, heq⟩ := Option.map_eq_some_iff.1 hp
    obtain ⟨hshape, -⟩ := Option.filter_eq_some_iff.1 hn
    cases heq
    exact .inl ⟨p, hmem, hshape⟩
  · exact .inr hkind

/-- What comes next is what the first rule covers that applies. -/
theorem IsNext.eq_of_firstRule {rules : List Rule}
    (hagree : List.Forall₂ Rule.Agrees rules patterns) (h : IsNext patterns kind covered rest)
    {other : Option LexemeKind} {n : Nat}
    (hfirst : firstRule rules (covered ++ rest) = (other, n)) :
    kind = other ∧ covered.length - 1 = n := by
  rw [firstRule_eq hagree] at hfirst
  rcases h with hmatch | ⟨hmatch, hkind, hlength⟩
  · rw [hmatch] at hfirst
    exact Prod.mk.inj hfirst
  · rw [hmatch] at hfirst
    rw [hkind, hlength]
    exact Prod.mk.inj hfirst

/-- An initial part of a text that is no longer than what comes next starts it. -/
theorem isPrefix_covered {start : List Char} (h : start <+: covered ++ rest)
    (hlength : start.length ≤ covered.length) : start <+: covered :=
  List.prefix_of_prefix_length_le h (List.prefix_append _ _) hlength

end IsNext

/-! ## Kinds of pieces -/

namespace Piece

/-- The lexer of the language has dropped the piece as a comment. -/
def IsComment (language : Language) (p : Piece) : Prop :=
  p.kind = none ∧
    match language with
    | .csharp => "//".toList <+: p.text ∨ "/*".toList <+: p.text
    | .visualBasic => "'".toList <+: p.text ∨ (p.text.take 3).map Char.toLower = "rem".toList

/-- The lexer has dropped the piece as a preprocessor directive. -/
def IsDirective (p : Piece) : Prop :=
  p.kind = none ∧ "#".toList <+: p.text

end Piece

/-! ## C# -/

namespace CSharp

variable {kind : Option LexemeKind} {start : Nat} {covered rest behind : List Char}

/-- Two slashes open a comment. -/
theorem isComment_of_slashes (h : IsNext patterns kind covered rest)
    (hstart : covered ++ rest = '/' :: '/' :: behind) :
    Piece.IsComment .csharp ⟨kind, covered, start⟩ := by
  have hextent : lineComment ('/' :: '/' :: behind) = 1 + restOfLine behind + 1 := by
    simp only [lineComment]
    omega
  have hfirst : firstRule rules (covered ++ rest) = (none, 1 + restOfLine behind) := by
    rw [hstart, rules, firstRule_of_extent_eq_zero (by rfl), firstRule_of_extent hextent]
  obtain ⟨rfl, hlength⟩ := h.eq_of_firstRule forall₂_rules_patterns hfirst
  have hprefix : "//".toList <+: covered ++ rest := ⟨behind, hstart.symm⟩
  exact ⟨rfl, .inl (isPrefix_covered hprefix (by omega : 2 ≤ covered.length))⟩

/-- A slash and a star open a comment if it is closed somewhere. -/
theorem isComment_of_opening (h : IsNext patterns kind covered rest)
    (hstart : covered ++ rest = '/' :: '*' :: behind) {n : Nat}
    (hclosed : commentBody behind = some n) : Piece.IsComment .csharp ⟨kind, covered, start⟩ := by
  have hextent : blockComment ('/' :: '*' :: behind) = 1 + n + 1 := by
    simp only [blockComment, hclosed]
    omega
  have hfirst : firstRule rules (covered ++ rest) = (none, 1 + n) := by
    rw [hstart, rules, firstRule_of_extent_eq_zero (by rfl), firstRule_of_extent_eq_zero (by rfl),
      firstRule_of_extent hextent]
  obtain ⟨rfl, hlength⟩ := h.eq_of_firstRule forall₂_rules_patterns hfirst
  have hprefix : "/*".toList <+: covered ++ rest := ⟨behind, hstart.symm⟩
  exact ⟨rfl, .inr (isPrefix_covered hprefix (by omega : 2 ≤ covered.length))⟩

/-- The expressions with a slash are those of comments, literals, malformed text, directives and
punctuation. -/
theorem slash_of_mem_patterns {p : Pattern} (h : (kind, p) ∈ patterns) :
    p.excludes '/' = true ∨ p = .one isPunctuation ∨ kind = some .str ∨ kind = some .error ∨
      kind = none ∧ p ∈ [lineCommentPattern, blockCommentPattern, directivePattern] := by
  simp only [patterns, List.mem_cons, Prod.mk.injEq, List.not_mem_nil, or_false] at h
  rcases h with ⟨-, rfl⟩ | ⟨rfl, rfl⟩ | ⟨rfl, rfl⟩ | ⟨rfl, -⟩ | ⟨rfl, rfl⟩ | ⟨rfl, -⟩ | ⟨rfl, -⟩ |
    ⟨rfl, -⟩ | ⟨rfl, -⟩ | ⟨-, rfl⟩ | ⟨-, rfl⟩ | ⟨-, rfl⟩ | ⟨-, rfl⟩ | ⟨-, rfl⟩
  · exact .inl (by decide)
  · simp
  · simp
  · simp
  · simp
  · simp
  · simp
  · simp
  · simp
  · exact .inl (by decide)
  · exact .inl (by decide)
  · exact .inl (by decide)
  · exact .inl (by decide)
  · exact .inr (.inl rfl)

/-- A slash inside a piece stands in a comment, a literal, malformed text or a directive. -/
theorem exists_holder_of_slash {inner more : List Char} (hinner : inner ≠ [])
    (h : IsNext patterns kind (inner ++ '/' :: more) rest) :
    Piece.IsComment .csharp ⟨kind, inner ++ '/' :: more, start⟩ ∨ kind = some .str ∨
      kind = some .error ∨ Piece.IsDirective ⟨kind, inner ++ '/' :: more, start⟩ := by
  have hmem : '/' ∈ inner ++ '/' :: more := by simp
  have hlong : 1 < (inner ++ '/' :: more).length := by
    have := List.length_pos_of_ne_nil hinner
    rw [List.length_append, List.length_cons]
    omega
  generalize inner ++ '/' :: more = covered at h hmem hlong ⊢
  rcases h.exists_pattern with ⟨p, hp, hshape⟩ | herror
  · rcases slash_of_mem_patterns hp with hexcludes | rfl | hstr | herror | ⟨rfl, hdropped⟩
    · exact absurd hmem (Pattern.not_mem_of_excludes hexcludes hshape)
    · exact absurd hlong (by rw [Pattern.length_of_shape_one hshape]; omega)
    · exact .inr (.inl hstr)
    · exact .inr (.inr (.inl herror))
    · simp only [List.mem_cons, List.not_mem_nil, or_false] at hdropped
      rcases hdropped with rfl | rfl | rfl
      · obtain ⟨more, rfl, hmore⟩ := Pattern.exists_of_shape_char_andThen hshape
        obtain ⟨more, rfl, -⟩ := Pattern.exists_of_shape_char_andThen hmore
        exact .inl ⟨rfl, .inl ⟨more, rfl⟩⟩
      · obtain ⟨more, rfl, hmore⟩ := Pattern.exists_of_shape_char_andThen hshape
        obtain ⟨more, rfl, -⟩ := Pattern.exists_of_shape_char_andThen hmore
        exact .inl ⟨rfl, .inr ⟨more, rfl⟩⟩
      · obtain ⟨more, rfl, -⟩ := Pattern.exists_of_shape_char_andThen hshape
        exact .inr (.inr (.inr ⟨rfl, more, rfl⟩))
  · exact .inr (.inr (.inl herror))

end CSharp

/-! ## Visual Basic -/

namespace VisualBasic

variable {kind : Option LexemeKind} {start : Nat} {covered rest behind : List Char}

/-- An apostrophe opens a comment. -/
theorem isComment_of_apostrophe (h : IsNext patterns kind covered rest) (hcovered : covered ≠ [])
    (hstart : covered ++ rest = '\'' :: behind) :
    Piece.IsComment .visualBasic ⟨kind, covered, start⟩ := by
  have hextent : comment ('\'' :: behind) = restOfLine behind + 1 := by
    simp only [comment]
    omega
  have hfirst : firstRule rules (covered ++ rest) = (none, restOfLine behind) := by
    rw [hstart, rules, firstRule_of_extent_eq_zero (by rfl), firstRule_of_extent_eq_zero (by rfl),
      firstRule_of_extent hextent]
  obtain ⟨rfl, -⟩ := h.eq_of_firstRule forall₂_rules_patterns hfirst
  have hprefix : "'".toList <+: covered ++ rest := ⟨behind, hstart.symm⟩
  exact ⟨rfl, .inl (isPrefix_covered hprefix (List.length_pos_of_ne_nil hcovered))⟩

/-- The word `Rem` opens a comment. -/
theorem isComment_of_remark {r e m : Char} (h : IsNext patterns kind covered rest)
    (hstart : covered ++ rest = r :: e :: m :: behind)
    (hword : [r, e, m].map Char.toLower = "rem".toList)
    (hend : behind.head?.any Text.isWordChar = false) :
    Piece.IsComment .visualBasic ⟨kind, covered, start⟩ := by
  obtain ⟨hr, he, hm⟩ : r.toLower = 'r' ∧ e.toLower = 'e' ∧ m.toLower = 'm' := by
    simpa using hword
  have hextent : remark (r :: e :: m :: behind) = 2 + restOfLine behind + 1 := by
    simp only [remark, hr, he, hm, hend]
    simp
    omega
  have hfirst : firstRule rules (covered ++ rest) = (none, 2 + restOfLine behind) := by
    have hother (c : Char) (hc : c.toLower ≠ 'r') : r ≠ c := by
      rintro rfl
      exact hc hr
    have hblank : run isLineBlank (r :: e :: m :: behind) = 0 := by
      simp [run, isLineBlank, hother ' ' (by decide), hother '\t' (by decide),
        hother '\r' (by decide), hother '\x0c' (by decide)]
    have hcontinuation : continuation (r :: e :: m :: behind) = 0 := by
      simp [continuation, hother '_' (by decide)]
    have hcomment : comment (r :: e :: m :: behind) = 0 := by
      simp [comment, hother '\'' (by decide)]
    rw [hstart, rules, firstRule_of_extent_eq_zero hblank,
      firstRule_of_extent_eq_zero hcontinuation, firstRule_of_extent_eq_zero hcomment,
      firstRule_of_extent hextent]
  obtain ⟨rfl, hlength⟩ := h.eq_of_firstRule forall₂_rules_patterns hfirst
  have hprefix : [r, e, m] <+: covered ++ rest := ⟨behind, hstart.symm⟩
  obtain ⟨more, rfl⟩ := isPrefix_covered hprefix (by omega : 3 ≤ covered.length)
  exact ⟨rfl, .inr hword⟩

/-- The expressions with an apostrophe are those of comments, literals, malformed text and
directives; those with the letter `r` are also those of names and numbers. -/
theorem mark_of_mem_patterns {p : Pattern} {x : Char} (hx : x ∈ ['\'', 'r', 'R'])
    (h : (kind, p) ∈ patterns) :
    p.excludes x = true ∨ kind = some .str ∨ kind = some .error ∨
      kind = none ∧ p ∈ [commentPattern, remarkPattern, directivePattern] ∨
      x ≠ '\'' ∧ (kind = some .ident ∨ kind = some .number) := by
  have hclass {q : Pattern} (hexcludes : q.excludes '\'' = true) :
      q.excludes x = true ∨ x ≠ '\'' := by
    by_cases h : x = '\''
    · exact .inl (h ▸ hexcludes)
    · exact .inr h
  have hneither {q : Pattern} (hexcludes : ['\'', 'r', 'R'].all q.excludes = true) :
      q.excludes x = true := List.all_eq_true.1 hexcludes x hx
  simp only [patterns, List.mem_cons, Prod.mk.injEq, List.not_mem_nil, or_false] at h
  rcases h with ⟨-, rfl⟩ | ⟨-, rfl⟩ | ⟨rfl, rfl⟩ | ⟨rfl, rfl⟩ | ⟨-, rfl⟩ | ⟨rfl, -⟩ | ⟨rfl, rfl⟩ |
    ⟨rfl, -⟩ | ⟨rfl, -⟩ | ⟨rfl, rfl⟩ | ⟨rfl, rfl⟩ | ⟨rfl, rfl⟩ | ⟨rfl, rfl⟩ | ⟨rfl, rfl⟩ |
    ⟨rfl, rfl⟩ | ⟨-, rfl⟩
  · exact .inl (hneither (by decide))
  · exact .inl (hneither (by decide))
  · simp
  · simp
  · exact .inl (hneither (by decide))
  · simp
  · simp
  · simp
  · simp
  · exact (hclass (by decide)).imp_right (by simp)
  · exact (hclass (by decide)).imp_right (by simp)
  · exact (hclass (by decide)).imp_right (by simp)
  · exact (hclass (by decide)).imp_right (by simp)
  · exact (hclass (by decide)).imp_right (by simp)
  · exact (hclass (by decide)).imp_right (by simp)
  · exact .inl (hneither (by decide))

/-- An apostrophe or the first letter of a `Rem` inside a piece stands in a comment, a literal,
malformed text or a directive, and such a letter may also stand in a name or number. -/
theorem exists_holder_of_mark {x : Char} (hx : x ∈ ['\'', 'r', 'R']) (hmem : x ∈ covered)
    (h : IsNext patterns kind covered rest) :
    Piece.IsComment .visualBasic ⟨kind, covered, start⟩ ∨ kind = some .str ∨
      kind = some .error ∨ Piece.IsDirective ⟨kind, covered, start⟩ ∨
      x ≠ '\'' ∧ (kind = some .ident ∨ kind = some .number) := by
  rcases h.exists_pattern with ⟨p, hp, hshape⟩ | herror
  · rcases mark_of_mem_patterns hx hp with
      hexcludes | hstr | herror | ⟨rfl, hdropped⟩ | hword
    · exact absurd hmem (Pattern.not_mem_of_excludes hexcludes hshape)
    · exact .inr (.inl hstr)
    · exact .inr (.inr (.inl herror))
    · simp only [List.mem_cons, List.not_mem_nil, or_false] at hdropped
      rcases hdropped with rfl | rfl | rfl
      · obtain ⟨more, rfl, -⟩ := Pattern.exists_of_shape_char_andThen hshape
        exact .inl ⟨rfl, .inl ⟨more, rfl⟩⟩
      · obtain ⟨r, behindR, hr, rfl, hbehindR⟩ := Pattern.exists_of_shape_one_andThen hshape
        obtain ⟨e, behindE, he, rfl, hbehindE⟩ := Pattern.exists_of_shape_one_andThen hbehindR
        obtain ⟨m, behindM, hm, rfl, -⟩ := Pattern.exists_of_shape_one_andThen hbehindE
        refine .inl ⟨rfl, .inr ?_⟩
        simpa using And.intro hr (And.intro he hm)
      · obtain ⟨more, rfl, -⟩ := Pattern.exists_of_shape_char_andThen hshape
        exact .inr (.inr (.inr (.inl ⟨rfl, more, rfl⟩)))
    · exact .inr (.inr (.inr (.inr hword)))
  · exact .inr (.inr (.inl herror))

end VisualBasic

end ZeroAlloc.Lexis
