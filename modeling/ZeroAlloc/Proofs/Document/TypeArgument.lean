import ZeroAlloc.Proofs.CSharp.Spelling
import ZeroAlloc.Proofs.Document.WellFormed
import ZeroAlloc.Proofs.Lexis.Spelling
import ZeroAlloc.Proofs.Replacement
import ZeroAlloc.Proofs.VisualBasic.Spelling
set_option autoImplicit false

/-! # Type arguments are read back

The type argument of a finding has the lexemes of the element type and of the levels below the
allocated one, and it is read as the type that the site has, without the sizes
(`readsType_typeArgument`). -/

namespace ZeroAlloc

/-! ## Element types -/

/-- A text can be a type argument if the type is resolved and no pointer. -/
theorem ElementType.of_text {t : ElementType} {text : String} (h : t.text? = some text) :
    t.resolved = true ∧ t.isPointer = false ∧ text = spell t.parts := by
  unfold text? at h
  split at h
  · cases h
  · rename_i hwritten
    simp only [Bool.or_eq_true, Bool.not_eq_true', not_or, Bool.not_eq_true,
      Bool.not_eq_false] at hwritten
    exact ⟨hwritten.2, hwritten.1, (Option.some.inj h).symm⟩

namespace Language

/-! ## Levels -/

/-- The brackets of array levels. -/
def levelBrackets : Language → BracketPair
  | csharp => .squares
  | visualBasic => .parens

/-- The levels of an array type without sizes, as they are written. -/
def unsizedLevels (language : Language) (levels : List ArrayLevel) : List Lexeme :=
  (levels.map ArrayLevel.rank).flatMap language.levelBrackets.unsized

theorem toList_levelText (language : Language) (rank : Nat) :
    (language.levelText rank).toList =
      (language.levelBrackets.unsized rank).flatMap fun l => l.text.toList := by
  have hcommas (n : Nat) : (List.replicate n BracketPair.comma).flatMap (fun l => l.text.toList) =
      List.replicate n ',' := by
    rw [List.flatMap_replicate]
    exact List.flatten_replicate_singleton
  cases language with
  | csharp => simp [levelText, levelBrackets, BracketPair.unsized, BracketPair.squares, hcommas]
  | visualBasic => simp [levelText, levelBrackets, BracketPair.unsized, BracketPair.parens, hcommas]

theorem toList_join_levelText (language : Language) (levels : List ArrayLevel) :
    (String.join (levels.map fun level => language.levelText level.rank)).toList =
      (language.unsizedLevels levels).flatMap fun l => l.text.toList := by
  simp only [unsizedLevels, String.toList_join, List.flatMap_map, List.flatMap_assoc,
    toList_levelText]

theorem unsizedLevels_eq_nil_or (language : Language) (levels : List ArrayLevel) :
    language.unsizedLevels levels = [] ∨
      startsWithPunct language.levelBrackets.opening (language.unsizedLevels levels) = true := by
  cases levels with
  | nil => exact .inl rfl
  | cons level levels =>
    refine .inr ?_
    rw [unsizedLevels, List.map_cons, List.flatMap_cons, BracketPair.unsized, List.cons_append,
      startsWithPunct_cons]
    simp [Lexeme.isPunct]

/-- Levels without sizes are lexed again. -/
theorem relexes_of_mem_unsizedLevels {language : Language} {levels : List ArrayLevel} {l : Lexeme}
    (h : l ∈ language.unsizedLevels levels) :
    Lexis.Relexes language.rules l ∧ l.isIdent = false := by
  have hmarks : language.levelBrackets.opening ∈ language.typeMarks ∧
      "," ∈ language.typeMarks ∧ language.levelBrackets.closing ∈ language.typeMarks := by
    cases language <;> decide
  obtain ⟨hopening, hcomma, hclosing⟩ := hmarks
  obtain ⟨p, hp, rfl⟩ : ∃ p ∈ language.typeMarks, l = ⟨.punct, p⟩ := by
    obtain ⟨rank, -, hl⟩ := List.mem_flatMap.1 h
    rcases List.mem_cons.1 hl with rfl | hl
    · exact ⟨_, hopening, rfl⟩
    · rcases List.mem_append.1 hl with hl | hl
      · exact ⟨_, hcomma, List.eq_of_mem_replicate hl⟩
      · exact ⟨_, hclosing, List.mem_singleton.1 hl⟩
  exact ⟨relexes_of_mem_typeMarks hp, rfl⟩

/-! ## Reading -/

/-- The language reads the row as a type that is no pointer, by the lexemes of its element type and
its levels, and nothing of the row is left. -/
def ReadsType (language : Language) (ls parts : List Lexeme) (levels : List ArrayLevel) : Prop :=
  match language with
  | csharp => CSharp.typeRef? ls = some (⟨parts, false, levels⟩, [])
  | visualBasic => VisualBasic.typeRef? ls = some (⟨parts, levels⟩, [])

/-- An element type is read back in front of levels without sizes. -/
theorem readsType_unsizedLevels {language : Language} {ls : List Lexeme} {s : Site}
    (h : s ∈ language.sites ls) (hls : language = .csharp → ∀ l ∈ ls, l.isNewline = false)
    (hproper : s.IsProper) (hresolved : s.element.resolved = true)
    (hpointer : s.element.isPointer = false) :
    language.ReadsType (s.element.parts ++ language.unsizedLevels s.inner) s.element.parts
      (s.inner.map fun level => ⟨List.replicate level.rank none⟩) := by
  have hranks : ∀ rank ∈ s.inner.map ArrayLevel.rank, 0 < rank := by
    intro rank hrank
    obtain ⟨level, hlevel, rfl⟩ := List.mem_map.1 hrank
    exact (hproper.levels level (List.mem_cons_of_mem _ hlevel)).rank_pos
  have hlists := unsizedLevels_eq_nil_or language s.inner
  cases language with
  | csharp =>
    obtain ⟨row, type, rest, hrow, htype, hne, helement⟩ :=
      CSharp.isElement_of_mem_sites h hresolved
    have hplain : ∀ l ∈ type.parts, l.isNewline = false := by
      obtain ⟨lists, rfl, -, -⟩ := CSharp.eq_append_of_typeRef htype
      exact fun l hl => hls rfl l (hrow (List.mem_append_left _ hl))
    have hparts : s.element.parts = type.parts := by
      rw [helement]
      exact withoutNewlines_eq_self hplain
    have hmark : type.isPointer = false := by rwa [helement] at hpointer
    have hlevels :
        arrayLevels .squares (fun _ => true) (unsizedLevels .csharp s.inner) = some (_, []) :=
      arrayLevels_unsized (by decide) (by decide) (by decide) (fun _ _ => rfl) hranks
    have hread := CSharp.typeRef?_append htype hne hplain hlevels hlists
    rw [hmark, List.map_map] at hread
    rw [hparts]
    exact hread
  | visualBasic =>
    obtain ⟨row, type, rest, htype, helement⟩ := VisualBasic.isElement_of_mem_sites h hresolved
    have hparts : s.element.parts = withoutNewlines type.parts := by rw [helement]; rfl
    have hof := VisualBasic.startsTypeArguments_unsized
    have hlevels : VisualBasic.bounds? (unsizedLevels .visualBasic s.inner) = some (_, []) :=
      arrayLevels_unsized (by decide) (by decide) (by decide)
        (fun rank more => by rw [hof, Bool.not_false]) hranks
    have hstart : VisualBasic.startsTypeArguments (unsizedLevels .visualBasic s.inner) = false := by
      cases s.inner with
      | nil => rfl
      | cons level levels => exact hof _ _
    have hread := VisualBasic.typeRef?_append htype hlevels hstart hlists
    rw [List.map_map] at hread
    rw [hparts]
    exact hread

/-- An element type and levels without sizes have the lexemes of both. -/
theorem lexemes_typeArgument {language : Language} {parts : List Lexeme}
    (hparts : ∀ l ∈ parts, Lexis.Relexes language.rules l) (levels : List ArrayLevel) :
    lexemes (Lexis.tokenize language.rules (ElementType.spell parts ++
      String.join (levels.map fun level => language.levelText level.rank))) =
        parts ++ language.unsizedLevels levels := by
  have hlevels : ∀ l ∈ language.unsizedLevels levels,
      Lexis.Relexes language.rules l ∧ l.isIdent = false :=
    fun l hl => language.relexes_of_mem_unsizedLevels hl
  obtain ⟨hpacked, hfeed⟩ := Lexis.Spells.append_packed hlevels .nil List.not_mem_nil
  have hstops := Lexis.stopsName_packed hlevels (show Lexis.StopsName [] from rfl)
  have hspells := (Lexis.Spells.append_spell hparts hpacked hfeed hstops).1
  rw [List.append_nil, List.append_nil, ← toList_join_levelText, ← String.toList_append] at hspells
  exact hspells.lexemes_tokensFrom 0

end Language

namespace Document

/-- The type argument of a finding is read as the type that the site has, without sizes, if it is
spelled with words and marks of types. -/
theorem readsType_typeArgument {language : Language} {path source : String} {policy : Policy}
    {finding : Finding} (h : finding ∈ (read language path source).findings policy)
    (hplain : ∀ l ∈ finding.site.element.parts, language.isPlain l = true) :
    language.ReadsType (lexemes (Lexis.tokenize language.rules finding.typeArgument))
      finding.site.element.parts
      (finding.site.inner.map fun level => ⟨List.replicate level.rank none⟩) := by
  obtain ⟨hsite, -, hargument⟩ := of_mem_findings h
  replace hargument : language.typeArgument? finding.site = some finding.typeArgument := hargument
  obtain ⟨text, htext, hargument⟩ := Option.map_eq_some_iff.1 hargument
  obtain ⟨hresolved, hpointer, rfl⟩ := ElementType.of_text htext
  have hrelexes : ∀ l ∈ finding.site.element.parts, Lexis.Relexes language.rules l := by
    intro l hl
    have hread := (Language.isCutFrom_of_mem_sites hsite).element hresolved l hl
    obtain ⟨t, ht, rfl⟩ := List.mem_map.1 hread.1
    exact Language.relexes_of_mem_tokenize ht (hplain _ hl)
  have hls : language = .csharp → ∀ l ∈ lexemes (Lexis.tokenize language.rules source),
      l.isNewline = false := by
    rintro rfl l hl
    obtain ⟨t, ht, rfl⟩ := List.mem_map.1 hl
    exact Lexis.CSharp.isNewline_of_mem_tokenize ht
  rw [← hargument, Language.lexemes_typeArgument hrelexes]
  exact Language.readsType_unsizedLevels hsite hls (isProper_of_mem_sites hsite) hresolved hpointer

/-- A declaration of an array of arrays of arrays. -/
def jaggedDeclaration : Document :=
  read .csharp "a.cs" "System.Tuple<int, (int, @new)>?[][,][] a = \x7b \x7d;"

theorem readsType_jaggedDeclaration :
    ∃ finding ∈ jaggedDeclaration.findings (Config.standard.policy true),
      finding.typeArgument = "System.Tuple<int, (int, @new)>?[,][]" ∧
      (∀ l ∈ finding.site.element.parts, Language.csharp.isPlain l = true) ∧
      Language.csharp.ReadsType (lexemes (Lexis.tokenize Lexis.CSharp.rules finding.typeArgument))
        finding.site.element.parts
        (finding.site.inner.map fun level => ⟨List.replicate level.rank none⟩) := by
  obtain ⟨finding, h, hargument, hplain⟩ :
      ∃ finding ∈ jaggedDeclaration.findings (Config.standard.policy true),
        finding.typeArgument = "System.Tuple<int, (int, @new)>?[,][]" ∧
        ∀ l ∈ finding.site.element.parts, Language.csharp.isPlain l = true := by decide +kernel
  exact ⟨finding, h, hargument, hplain, readsType_typeArgument h hplain⟩

end Document

end ZeroAlloc
