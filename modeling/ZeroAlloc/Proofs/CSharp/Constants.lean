import ZeroAlloc.Proofs.CSharp.Grammar
import ZeroAlloc.Proofs.Declaration
import ZeroAlloc.Proofs.Language.Constants
import ZeroAlloc.Proofs.Language.Inlining
import ZeroAlloc.Proofs.SizeExpr.Definition
set_option autoImplicit false

/-! # Constants of C#

A declaration names a type and then, between commas, constants with their definitions. The type is
read up to the first name, whatever type it is (`typeRef?_append_ident`), and each definition up to
the comma or semicolon behind it, so all constants are found (`constantDeclarations_eq`). -/

namespace ZeroAlloc.CSharp

/-! ## Types in front of a name -/

theorem startsWith_of_arrayLevels {ls : List Lexeme} {levels : List ArrayLevel}
    (h : arrayLevels .squares (fun _ => true) ls = some (levels, [])) :
    ls = [] ∨ startsWithPunct "[" ls = true := by
  cases levels with
  | cons level levels => exact .inr (startsWithPunct_of_arrayLevels (by simp) h)
  | nil =>
    cases hopen : startsWithPunct "[" ls with
    | true => exact .inr rfl
    | false =>
      rw [arrayLevels_eq, show startsWithPunct BracketPair.squares.opening ls = false from hopen,
        Bool.false_and, if_neg Bool.false_ne_true] at h
      exact .inl (congrArg Prod.snd (Option.some.inj h))

theorem StopsName.append {ls more : List Lexeme} (h : StopsName ls)
    (hmore : startsWithIdent more = true) : StopsName (ls ++ more) := by
  cases ls with
  | nil => exact fun p _ => startsWithPunct_eq_false_of_startsWithIdent hmore p
  | cons l ls => exact h

/-- The marks of a type that has nothing behind its levels end at a name, too. -/
theorem marks_append_ident {ls more : List Lexeme}
    (hlists : ls.dropWhile isTypeMark = [] ∨ startsWithPunct "[" (ls.dropWhile isTypeMark) = true)
    (hmore : startsWithIdent more = true) :
    (ls ++ more).takeWhile isTypeMark = ls.takeWhile isTypeMark ∧
      (ls ++ more).dropWhile isTypeMark = ls.dropWhile isTypeMark ++ more := by
  have hmarks : ∀ l ∈ ls.takeWhile isTypeMark, isTypeMark l = true :=
    List.all_eq_true.1 List.all_takeWhile
  have hrow : ls ++ more = ls.takeWhile isTypeMark ++ (ls.dropWhile isTypeMark ++ more) := by
    rw [← List.append_assoc, List.takeWhile_append_dropWhile]
  rcases hlists with hnil | hopen
  · -- without levels, the marks end at the name itself
    obtain ⟨l, more, rfl⟩ : ∃ l tail, more = l :: tail := by
      cases more with
      | nil => cases hmore
      | cons l more => exact ⟨l, more, rfl⟩
    have hident : l.isIdent = true := hmore
    have hmark : ¬isTypeMark l = true := by
      simp [isTypeMark, Lexeme.isPunct_of_isIdent hident]
    rw [hrow, hnil, List.nil_append, List.takeWhile_append_of_pos hmarks,
      List.dropWhile_append_of_pos hmarks, List.takeWhile_cons_of_neg hmark,
      List.dropWhile_cons_of_neg hmark, List.append_nil]
    exact ⟨rfl, rfl⟩
  · have hopen' : startsWithPunct "[" (ls.dropWhile isTypeMark ++ more) = true := by
      cases hdrop : ls.dropWhile isTypeMark with
      | nil =>
        rw [hdrop] at hopen
        cases hopen
      | cons l lists =>
        rw [hdrop] at hopen
        exact hopen
    rw [hrow]
    exact marks_append hmarks (.inr hopen')

/-- A type is read up to the name behind it. -/
theorem typeRef?_append_ident {ls more : List Lexeme} {type : TypeRef}
    (h : typeRef? ls = some (type, [])) (hmore : startsWithIdent more = true) :
    typeRef? (ls ++ more) = some (type, more) := by
  rw [typeRef?_eq] at h
  obtain ⟨⟨name, after⟩, hname, h⟩ := Option.bind_eq_some_iff.1 h
  obtain ⟨⟨levels, rest⟩, hlevels, he⟩ := Option.map_eq_some_iff.1 h
  cases he
  have hlists := startsWith_of_arrayLevels hlevels
  -- a word continues neither the name of the type nor its marks nor its levels
  have hstop : StopsName after := stopsName_of_dropWhile hlists
  have hnoList : startsWithPunct BracketPair.squares.opening ([] ++ more) = false :=
    startsWithPunct_eq_false_of_startsWithIdent hmore _
  obtain ⟨htake, hdrop⟩ := marks_append_ident hlists hmore
  have hagain := elementName?_append_rest hname hstop (hstop.append hmore)
  rw [typeRef?_eq, hagain, Option.bind_some]
  dsimp only
  rw [hdrop, arrayLevels_append (by decide) hlevels hnoList, htake]
  rfl

/-! ## Definitions -/

theorem endsOutside : EndsOutside endsDefinition where
  inside _ := rfl
  outside hl := by
    rw [endsDefinition, isPunct_eq_false_of_isExpressionLexeme hl (by decide),
      isPunct_eq_false_of_isExpressionLexeme hl (by decide)]
    rfl

/-- Whether the lexeme can stand in the path of a type. -/
def isPathLexeme (l : Lexeme) : Bool :=
  l.isIdent || l.isPunct "."

/-- The path of a type is a row of words and points. -/
theorem exists_path_of_dottedName? {ls rest : List Lexeme} {last : String} {width : Nat}
    (h : dottedName? ls = some (last, width, rest)) :
    ∃ path, ls = path ++ rest ∧ path.length = width ∧ ∀ l ∈ path, isPathLexeme l = true := by
  fun_induction dottedName? ls generalizing last width rest with
  | case1 => cases h
  | case2 l hl =>
    cases h
    exact ⟨[l], rfl, rfl, by simp [isPathLexeme, hl]⟩
  | case3 => cases h
  | case4 => cases h
  | case5 l dot ls hl hdot ih =>
    obtain ⟨⟨last', width', rest'⟩, hmore, he⟩ := Option.map_eq_some_iff.1 h
    cases he
    obtain ⟨path, rfl, rfl, hpath⟩ := ih hmore
    refine ⟨l :: dot :: path, rfl, rfl, ?_⟩
    simpa [isPathLexeme, hdot, show l.isIdent = true by simpa using hl] using hpath
  | case6 l dot ls hl hdot =>
    cases h
    have hident : l.isIdent = true := by simpa using hl
    exact ⟨[l], rfl, rfl, by simp [isPathLexeme, hident]⟩

theorem isExpressionLexeme_of_isPathLexeme {l : Lexeme} (h : isPathLexeme l = true) :
    isExpressionLexeme l = true := by
  rcases Bool.or_eq_true_iff.1 h with h | h <;> simp [isExpressionLexeme, h]

theorem nested_of_isPathLexeme {ls : List Lexeme} (h : ∀ l ∈ ls, isPathLexeme l = true) :
    BracketPair.parens.Nested ls := by
  induction ls with
  | nil => exact .nil
  | cons l ls ih =>
    obtain ⟨hopen, hclose⟩ : l.isPunct "(" = false ∧ l.isPunct ")" = false := by
      rcases Bool.or_eq_true_iff.1 (h l List.mem_cons_self) with hl | hl
      · exact ⟨Lexeme.isPunct_of_isIdent hl _, Lexeme.isPunct_of_isIdent hl _⟩
      · exact ⟨SizeExpr.isPunct_eq_decide _ hl, SizeExpr.isPunct_eq_decide _ hl⟩
    exact .plain hopen hclose (ih fun m hm => h m (List.mem_cons_of_mem l hm))

/-- The marks of a cast are a path in brackets. -/
theorem castsPlain : dialect.CastsPlain := by
  intro ls width h
  obtain ⟨opening, inside, last, path, close, operand, rest, rfl, hopen, hlast, -, hclose, rfl⟩ :=
    castWidth?_eq_some_iff.1 h
  obtain ⟨row, rfl, rfl, hrow⟩ := exists_path_of_dottedName? hlast
  have htake : (opening :: (row ++ close :: operand :: rest)).take (row.length + 2) =
      opening :: (row ++ close :: []) := by
    rw [List.take_succ_cons, List.take_append, List.take_of_length_le (by omega)]
    simp
  rw [htake]
  refine ⟨.group hopen (nested_of_isPathLexeme hrow) hclose .nil, fun l hl => ?_⟩
  simp only [List.mem_cons, List.mem_append, List.not_mem_nil, or_false] at hl
  rcases hl with rfl | hl | rfl
  · simp [isExpressionLexeme, hopen]
  · exact isExpressionLexeme_of_isPathLexeme (hrow l hl)
  · simp [isExpressionLexeme, hclose]

/-! ## Declarations -/

/-- Whether the lexeme is the word that declares constants. -/
def isConst (l : Lexeme) : Bool :=
  l.isWord "const"

/-- A declaration of constants, and what stands in front of it in the file: its modifiers, and
members of other kinds. -/
structure ConstantDeclaration where
  before : List Lexeme
  type : List Lexeme
  isOther : ∀ l ∈ before ++ type, isConst l = false
  first : NamedDefinition dialect isConst
  more : List (NamedDefinition dialect isConst)

namespace ConstantDeclaration

variable (d : ConstantDeclaration)

/-- The type is read as a whole. -/
def IsTypeRead : Prop :=
  (typeRef? d.type).map Prod.snd = some []

instance : Decidable d.IsTypeRead :=
  inferInstanceAs (Decidable ((typeRef? d.type).map Prod.snd = some []))

/-- A type of the grammar is read as a whole, and so are unsized levels of an array behind it. -/
theorem isTypeRead_of_derives {element : List Lexeme} (h : Phrase.element.Derives element)
    {ranks : List Nat} (hranks : ∀ rank ∈ ranks, 0 < rank)
    (htype : d.type = element ++ ranks.flatMap BracketPair.squares.unsized) : d.IsTypeRead := by
  obtain ⟨isPointer, hread⟩ := typeRef?_of_derives h hranks
  rw [IsTypeRead, htype, hread]
  rfl

/-- The lexemes of a constant. -/
def itemRow (n : NamedDefinition dialect isConst) : List Lexeme :=
  n.name :: .punct "=" :: n.value

/-- The lexemes of the constants, through the semicolon. -/
def items : List Lexeme :=
  itemRow d.first ++ (d.more.flatMap (fun n => .punct "," :: itemRow n) ++ [.punct ";"])

/-- The lexemes of the declaration. -/
def row : List Lexeme :=
  d.before ++ .word "const" :: (d.type ++ d.items)

/-- The constants of the declaration. -/
def constants : List (NamedDefinition dialect isConst) :=
  d.first :: d.more

/-- Their names and definitions. -/
def entries : List (String × List Lexeme) :=
  d.constants.map NamedDefinition.entry

/-- One round of reading constants, up to the separator. -/
theorem constantDeclarators_item (n : NamedDefinition dialect isConst) {separator : String}
    (h : separator ∈ [",", ";"]) (rest : List Lexeme) :
    constantDeclarators (itemRow n ++ .punct separator :: rest) =
      n.declared :: if separator = "," then constantDeclarators rest else [] := by
  have hends : endsDefinition 0 (.punct separator) = true := by
    revert separator
    decide
  have hvalue := n.definition_value endsOutside castsPlain hends rest
  have hmark : (n.name.isIdent && (Lexeme.punct "=").isPunct "=") = true := by
    rw [n.isName]
    rfl
  rw [itemRow, List.cons_append, List.cons_append, constantDeclarators_cons, if_pos hmark]
  simp only [hvalue, n.withoutNewlines_value, startsWithPunct_cons, Lexeme.isPunct_punct,
    beq_iff_eq, List.tail_cons]
  rfl

/-- All constants between commas are read. -/
theorem constantDeclarators_items (rest : List Lexeme) :
    constantDeclarators (d.items ++ rest) = d.constants.map NamedDefinition.declared := by
  have hmore (first : NamedDefinition dialect isConst)
      (more : List (NamedDefinition dialect isConst)) :
      constantDeclarators (itemRow first ++
        (more.flatMap (fun n => .punct "," :: itemRow n) ++ .punct ";" :: rest)) =
        (first :: more).map NamedDefinition.declared := by
    induction more generalizing first with
    | nil => exact constantDeclarators_item first (by decide) rest
    | cons n more ih =>
      rw [List.flatMap_cons, List.cons_append, List.cons_append, List.append_assoc,
        constantDeclarators_item first (by decide), if_pos rfl, ih]
      rfl
  rw [items, List.append_assoc, List.append_assoc, List.singleton_append, hmore, constants]

/-- Nothing behind the word `const` declares constants again. -/
theorem isConst_of_mem {l : Lexeme} (h : l ∈ d.type ++ d.items) : isConst l = false := by
  have hitem (n : NamedDefinition dialect isConst) (h : l ∈ itemRow n) : isConst l = false := by
    rcases List.mem_cons.1 h with rfl | h
    · exact n.isOther _ List.mem_cons_self
    · rcases List.mem_cons.1 h with rfl | h
      · rfl
      · exact n.isOther l (List.mem_cons_of_mem _ h)
  simp only [items, List.mem_append, List.mem_flatMap, List.mem_cons, List.not_mem_nil,
    or_false] at h
  rcases h with htype | hfirst | ⟨n, -, rfl | hn⟩ | rfl
  · exact d.isOther l (List.mem_append_right _ htype)
  · exact hitem d.first hfirst
  · rfl
  · exact hitem n hn
  · rfl

end ConstantDeclaration

/-- The constants that are declared where a row starts. -/
def constantsAt (_before here : List Lexeme) : List (String × List Lexeme) :=
  if here.head?.any isConst then
    match typeRef? here.tail with
    | some (_, rest) => constantDeclarators rest
    | none => []
  else []

theorem constantsAt_eq_nil {l : Lexeme} (h : isConst l = false) (before behind : List Lexeme) :
    constantsAt before (l :: behind) = [] := by
  rw [constantsAt, List.head?_cons, Option.any_some, h]
  rfl

theorem constantsAt_const (before : List Lexeme) {type rest : List Lexeme}
    (htype : (typeRef? type).map Prod.snd = some []) (hrest : startsWithIdent rest = true) :
    constantsAt before (.word "const" :: (type ++ rest)) = constantDeclarators rest := by
  obtain ⟨⟨t, _⟩, htype, rfl⟩ := Option.map_eq_some_iff.1 htype
  have hword : (Lexeme.word "const" :: (type ++ rest)).head?.any isConst = true := rfl
  rw [constantsAt, if_pos hword, List.tail_cons, typeRef?_append_ident htype hrest]

/-- All constants of a declaration are found at its word, and the file goes on behind it. -/
theorem ConstantDeclaration.atEachPlace_row {d : ConstantDeclaration} (htype : d.IsTypeRead)
    (before rest : List Lexeme) :
    atEachPlace constantsAt before (d.row ++ rest) =
      d.constants.map NamedDefinition.declared ++
        atEachPlace constantsAt (d.row.reverse ++ before) rest := by
  -- all constants are found at the word `const`, and none at the other lexemes
  have hbefore : ∀ l ∈ d.before, ∀ before behind, constantsAt before (l :: behind) = [] :=
    fun l hl => constantsAt_eq_nil (d.isOther l (List.mem_append_left _ hl))
  have hbehind : ∀ l ∈ d.type ++ d.items, ∀ before behind,
      constantsAt before (l :: behind) = [] :=
    fun l hl => constantsAt_eq_nil (d.isConst_of_mem hl)
  have hname : startsWithIdent (d.items ++ rest) = true := d.first.isName
  have hrow : d.row ++ rest = d.before ++ .word "const" :: ((d.type ++ d.items) ++ rest) := by
    simp [row]
  rw [hrow, atEachPlace_append_plain hbefore, atEachPlace, atEachPlace_append_plain hbehind,
    List.append_assoc d.type, constantsAt_const _ htype hname, d.constantDeclarators_items]
  simp [row]

/-- The declarations of a file that has the word for them in no other place. -/
theorem constantDeclarations_eq {ds : List ConstantDeclaration}
    (htypes : ∀ d ∈ ds, d.IsTypeRead) {rest : List Lexeme}
    (h : ∀ l ∈ rest, isConst l = false) :
    constantDeclarations (ds.flatMap ConstantDeclaration.row ++ rest) =
      (ds.flatMap ConstantDeclaration.entries).map
        fun p => (dialect.canonicalName p.1, p.2) := by
  have hrest : ∀ l ∈ rest, ∀ before behind, constantsAt before (l :: behind) = [] :=
    fun l hl => constantsAt_eq_nil (h l hl)
  calc constantDeclarations (ds.flatMap ConstantDeclaration.row ++ rest)
      = atEachPlace constantsAt [] (ds.flatMap ConstantDeclaration.row ++ rest) := rfl
    _ = ds.flatMap (fun d => d.constants.map NamedDefinition.declared) := by
      rw [atEachPlace_flatMap fun d hd => ConstantDeclaration.atEachPlace_row (htypes d hd),
        atEachPlace_plain hrest, List.append_nil]
    _ = (ds.flatMap ConstantDeclaration.entries).map
          fun p => (dialect.canonicalName p.1, p.2) := by
      simp only [NamedDefinition.map_declared, List.map_flatMap, ConstantDeclaration.entries]

end ZeroAlloc.CSharp
