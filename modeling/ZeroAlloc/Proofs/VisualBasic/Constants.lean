import ZeroAlloc.Proofs.Declaration
import ZeroAlloc.Proofs.Language.Constants
import ZeroAlloc.Proofs.SizeExpr.Definition
import ZeroAlloc.Proofs.VisualBasic.Imports
set_option autoImplicit false

/-! # Constants of Visual Basic

A declaration names constants between commas, each with its type, if that is given, and its
definition. What stands between a name and the sign `=` is passed over, and each definition is read
up to the comma, colon or line break behind it, so all constants are found
(`constantDeclarations_eq`). -/

namespace ZeroAlloc.VisualBasic

/-! ## Definitions -/

theorem endsOutside : EndsOutside endsDefinition where
  inside hl := by
    rw [endsDefinition, hl]
    rfl
  outside hl := by
    rw [endsDefinition, isNewline_of_isExpressionLexeme hl,
      isPunct_eq_false_of_isExpressionLexeme hl (by decide),
      isPunct_eq_false_of_isExpressionLexeme hl (by decide)]
    rfl

/-- There are no casts. -/
theorem castsPlain : dialect.CastsPlain :=
  fun h => by cases h

/-! ## Declarations -/

/-- Whether the lexeme is the word that declares constants. -/
def isConst (l : Lexeme) : Bool :=
  isKeyword l "const"

/-- A constant in a declaration, with what stands between its name and the sign `=`, such as an `As`
clause. -/
structure Constant extends NamedDefinition dialect isConst where
  clause : List Lexeme
  isClause : ∀ l ∈ clause, endsDeclarator l = false ∧ isConst l = false

/-- The lexemes of a constant. -/
def Constant.row (n : Constant) : List Lexeme :=
  n.name :: (n.clause ++ .punct "=" :: n.value)

/-- A declaration of constants, and what stands in front of it in the file: its modifiers, and
members of other kinds. -/
structure ConstantDeclaration where
  before : List Lexeme
  isOther : ∀ l ∈ before, isConst l = false
  word : Lexeme
  isConst_word : isConst word = true
  first : Constant
  more : List Constant
  /-- The line break or colon behind the declaration. -/
  terminator : Lexeme
  isTerminator : terminator.isNewline = true ∨ terminator.isPunct ":" = true

namespace ConstantDeclaration

variable (d : ConstantDeclaration)

/-- The lexemes of the constants, through the line break or colon. -/
def items : List Lexeme :=
  d.first.row ++ (d.more.flatMap (fun n => .punct "," :: n.row) ++ [d.terminator])

/-- The lexemes of the declaration. -/
def row : List Lexeme :=
  d.before ++ d.word :: d.items

/-- The constants of the declaration. -/
def constants : List (NamedDefinition dialect isConst) :=
  (d.first :: d.more).map Constant.toNamedDefinition

/-- Their names and definitions. -/
def entries : List (String × List Lexeme) :=
  d.constants.map NamedDefinition.entry

/-- One round of reading constants, up to the separator. -/
theorem constantDeclarators_item (n : Constant) {separator : Lexeme}
    (h : endsDefinition 0 separator = true) (rest : List Lexeme) :
    constantDeclarators (n.row ++ separator :: rest) =
      n.declared :: if separator.isPunct "," then constantDeclarators rest else [] := by
  have hvalue := n.definition_value endsOutside castsPlain h rest
  have hclause : ∀ l ∈ n.clause, (!endsDeclarator l) = true :=
    fun l hl => by rw [(n.isClause l hl).1, Bool.not_false]
  -- no sign `=` stands in the clause, so the first one is that of the constant
  have hmarked : (n.clause ++ .punct "=" :: (n.value ++ separator :: rest)).dropWhile
      (!endsDeclarator ·) = .punct "=" :: (n.value ++ separator :: rest) := by
    rw [List.dropWhile_append_of_pos hclause, List.dropWhile_cons_of_neg (by decide)]
  have hmark : (n.name.isIdent && (Lexeme.punct "=").isPunct "=") = true := by
    rw [n.isName]
    rfl
  rw [Constant.row, List.cons_append, List.append_assoc, List.cons_append,
    constantDeclarators_cons]
  simp only [hmarked, startsWithPunct_cons, hmark, if_true, List.tail_cons, hvalue,
    n.withoutNewlines_value]
  rfl

/-- All constants between commas are read. -/
theorem constantDeclarators_items (rest : List Lexeme) :
    constantDeclarators (d.items ++ rest) = d.constants.map NamedDefinition.declared := by
  have hterminator : endsDefinition 0 d.terminator = true ∧ d.terminator.isPunct "," = false := by
    rcases d.isTerminator with h | h
    · have hkind : d.terminator.kind = .newline := of_decide_eq_true h
      exact ⟨by simp [endsDefinition, h], by simp [Lexeme.isPunct, hkind]⟩
    · exact ⟨by simp [endsDefinition, h], SizeExpr.isPunct_eq_decide _ h⟩
  have hmore (first : Constant) (more : List Constant) :
      constantDeclarators (first.row ++
        (more.flatMap (fun n => .punct "," :: n.row) ++ d.terminator :: rest)) =
        (first :: more).map fun n => n.declared := by
    induction more generalizing first with
    | nil =>
      rw [List.flatMap_nil, List.nil_append, constantDeclarators_item first hterminator.1,
        hterminator.2]
      rfl
    | cons n more ih =>
      rw [List.flatMap_cons, List.cons_append, List.cons_append, List.append_assoc,
        constantDeclarators_item first (by decide), Lexeme.isPunct_punct, beq_self_eq_true,
        if_pos rfl, ih]
      rfl
  rw [items, List.append_assoc, List.append_assoc, List.singleton_append, hmore, constants,
    List.map_map]
  rfl

/-- Nothing behind the word `Const` declares constants again. -/
theorem isConst_of_mem {l : Lexeme} (h : l ∈ d.items) : isConst l = false := by
  have hitem (n : Constant) (h : l ∈ n.row) : isConst l = false := by
    rcases List.mem_cons.1 h with rfl | h
    · exact n.isOther _ List.mem_cons_self
    · rcases List.mem_append.1 h with h | h
      · exact (n.isClause l h).2
      · rcases List.mem_cons.1 h with rfl | h
        · rfl
        · exact n.isOther l (List.mem_cons_of_mem _ h)
  simp only [items, List.mem_append, List.mem_flatMap, List.mem_cons, List.not_mem_nil,
    or_false] at h
  rcases h with hfirst | ⟨n, -, rfl | hn⟩ | rfl
  · exact hitem d.first hfirst
  · rfl
  · exact hitem n hn
  · rcases d.isTerminator with h | h
    · exact isKeyword_of_isNewline h _
    · exact isKeyword_of_isPunct h _

end ConstantDeclaration

/-- The constants that are declared where a row starts. -/
def constantsAt (_before here : List Lexeme) : List (String × List Lexeme) :=
  if startsWithKeyword "const" here then constantDeclarators here.tail else []

theorem constantsAt_cons (before : List Lexeme) (l : Lexeme) (behind : List Lexeme) :
    constantsAt before (l :: behind) =
      if isConst l then constantDeclarators behind else [] := by
  rfl

theorem constantsAt_eq_nil {l : Lexeme} (h : isConst l = false) (before behind : List Lexeme) :
    constantsAt before (l :: behind) = [] := by
  rw [constantsAt_cons, h]
  rfl

/-- All constants of a declaration are found at its word, and the file goes on behind it. -/
theorem ConstantDeclaration.atEachPlace_row (d : ConstantDeclaration)
    (before rest : List Lexeme) :
    atEachPlace constantsAt before (d.row ++ rest) =
      d.constants.map NamedDefinition.declared ++
        atEachPlace constantsAt (d.row.reverse ++ before) rest := by
  -- all constants are found at the word `Const`, and none at the other lexemes
  have hbefore : ∀ l ∈ d.before, ∀ before behind, constantsAt before (l :: behind) = [] :=
    fun l hl => constantsAt_eq_nil (d.isOther l hl)
  have hbehind : ∀ l ∈ d.items, ∀ before behind, constantsAt before (l :: behind) = [] :=
    fun l hl => constantsAt_eq_nil (d.isConst_of_mem hl)
  have hrow : d.row ++ rest = d.before ++ d.word :: (d.items ++ rest) := by
    simp [row]
  rw [hrow, atEachPlace_append_plain hbefore, atEachPlace, atEachPlace_append_plain hbehind,
    constantsAt_cons, if_pos d.isConst_word, d.constantDeclarators_items]
  simp [row]

/-- The declarations of a file that has the word for them in no other place. -/
theorem constantDeclarations_eq (ds : List ConstantDeclaration) {rest : List Lexeme}
    (h : ∀ l ∈ rest, isConst l = false) :
    constantDeclarations (ds.flatMap ConstantDeclaration.row ++ rest) =
      (ds.flatMap ConstantDeclaration.entries).map
        fun p => (dialect.canonicalName p.1, p.2) := by
  have hrest : ∀ l ∈ rest, ∀ before behind, constantsAt before (l :: behind) = [] :=
    fun l hl => constantsAt_eq_nil (h l hl)
  calc constantDeclarations (ds.flatMap ConstantDeclaration.row ++ rest)
      = atEachPlace constantsAt [] (ds.flatMap ConstantDeclaration.row ++ rest) := rfl
    _ = ds.flatMap (fun d => d.constants.map NamedDefinition.declared) := by
      rw [atEachPlace_flatMap fun d _ => d.atEachPlace_row, atEachPlace_plain hrest,
        List.append_nil]
    _ = (ds.flatMap ConstantDeclaration.entries).map
          fun p => (dialect.canonicalName p.1, p.2) := by
      simp only [NamedDefinition.map_declared, List.map_flatMap, ConstantDeclaration.entries]

end ZeroAlloc.VisualBasic
