import ZeroAlloc.Proofs.Lexis.LetterCase
import ZeroAlloc.Proofs.Respelling.Document
set_option autoImplicit false

/-! # Letter case in Visual Basic

Words, names and numbers of Visual Basic are the same in any case. Programs that differ in nothing
but the case of letters of ASCII are read, judged and fixed alike (`sameButCase_read`). -/

namespace ZeroAlloc

open Text (lowerAscii byteLength)

/-! ## Positions -/

namespace Text

theorem pass_toLower (w : Walk) (c : Char) : w.pass c.toLower = w.pass c := by
  have hfeed : c.toLower = '\n' ↔ c = '\n' := toLower_eq_iff rfl
  simp only [Walk.pass, utf8Size_toLower, hfeed]

theorem positionOf_map_toLower (w : Walk) (offset : Nat) (cs : List Char) :
    w.positionOf offset (cs.map Char.toLower) = w.positionOf offset cs := by
  induction cs generalizing w with
  | nil => rfl
  | cons c cs ih =>
    rw [List.map_cons, Walk.positionOf, Walk.positionOf, utf8Size_toLower, pass_toLower, ih]

/-- An offset has the same position in texts that differ in case. -/
theorem span_of_lowerAscii_eq {a b : String} (h : lowerAscii a = lowerAscii b)
    (start stop : Nat) : Span.of a.toList start stop = Span.of b.toList start stop := by
  have hposition (offset : Nat) : positionAt a.toList offset = positionAt b.toList offset := by
    rw [positionAt, positionAt, ← positionOf_map_toLower, lowerAscii_eq_iff.1 h,
      positionOf_map_toLower]
  rw [Span.of, Span.of, hposition, hposition]

end Text

/-! ## The respelling in lower case -/

namespace VisualBasic

/-- All texts in lower case. -/
def lowerCase : Respelling lowerAscii where
  name := lowerAscii
  literal := lowerAscii
  malformed := lowerAscii
  canonical_name := Text.lowerAscii_lowerAscii
  canonical_literal_or text := .inl (Text.lowerAscii_lowerAscii text)
  canonical_malformed_or text := .inl (Text.lowerAscii_lowerAscii text)
  holdsMark_canonical := holdsMark_lowerAscii

theorem keepsCanonical_lowerCase : lowerCase.KeepsCanonical :=
  ⟨Text.lowerAscii_lowerAscii, Text.lowerAscii_lowerAscii⟩

theorem lowerAscii_text_lowerCase (l : Lexeme) :
    lowerAscii (lowerCase.apply l).text = lowerAscii l.text := by
  unfold Respelling.apply
  split
  · exact Text.lowerAscii_lowerAscii l.text
  · exact Text.lowerAscii_lowerAscii l.text
  · exact Text.lowerAscii_lowerAscii l.text
  · exact Text.lowerAscii_lowerAscii l.text
  · rfl
  · rfl

theorem lowerAscii_spell_row (parts : List Lexeme) :
    lowerAscii (ElementType.spell (lowerCase.row parts)) =
      lowerAscii (ElementType.spell parts) := by
  fun_induction ElementType.spell parts with
  | case1 => rfl
  | case2 l => exact lowerAscii_text_lowerCase l
  | case3 l next ls ih =>
    have hspaced : ElementType.spaced (lowerCase.apply l) (lowerCase.apply next) =
        ElementType.spaced l next := by
      simp [ElementType.spaced]
    rw [Respelling.row_cons, Respelling.row_cons, ElementType.spell, hspaced,
      ← Respelling.row_cons, Text.lowerAscii_append, Text.lowerAscii_append, ih,
      lowerAscii_text_lowerCase, Text.lowerAscii_append, Text.lowerAscii_append]

/-- In lower case, lexemes are the tokens in lower case. -/
theorem row_lexemes_tokenize (source : String) :
    lowerCase.row (lexemes (Lexis.tokenize Lexis.VisualBasic.rules source)) =
      lexemes ((Lexis.tokenize Lexis.VisualBasic.rules source).map Lexis.lowerToken) := by
  rw [Respelling.row, lexemes, lexemes, List.map_map, List.map_map]
  refine List.map_congr_left fun t ht => ?_
  have hcase := Lexis.lowerAscii_text_of_mem_tokenize ht
  obtain ⟨⟨kind, text⟩, start⟩ := t
  cases kind with
  | punct => exact congrArg (Lexeme.mk .punct) (hcase (.inl rfl)).symm
  | newline => exact congrArg (Lexeme.mk .newline) (hcase (.inr rfl)).symm
  | _ => rfl

theorem row_lexemes_eq {source source' : String} (h : lowerAscii source = lowerAscii source') :
    lowerCase.row (lexemes (Lexis.tokenize Lexis.VisualBasic.rules source')) =
      lowerCase.row (lexemes (Lexis.tokenize Lexis.VisualBasic.rules source)) := by
  rw [row_lexemes_tokenize, row_lexemes_tokenize, Lexis.map_lowerToken_tokenize h]

end VisualBasic

namespace Document

/-! ## Documents that differ in case -/

section Same

variable (doc other : Document)

/-- The two sites are the same, at the same places; their element types may differ in case. -/
structure SameSiteButCase (s s' : Site) : Prop where
  span : other.siteSpan s' = doc.siteSpan s
  insertionOffset : other.insertionOffset s' = doc.insertionOffset s
  origin : s'.origin = s.origin
  inAttribute : s'.inAttribute = s.inAttribute
  malformed : s'.malformed = s.malformed
  isPointer : s'.element.isPointer = s.element.isPointer
  resolved : s'.element.resolved = s.element.resolved
  ranks : s'.levels.map ArrayLevel.rank = s.levels.map ArrayLevel.rank
  evidence : s'.evidence other.language other.constants = s.evidence doc.language doc.constants
  decision : ∀ policy, s'.decision other.language other.constants policy =
    s.decision doc.language doc.constants policy

/-- The two findings report the same, up to the case of the type argument. -/
structure SameFindingButCase (f f' : Finding) : Prop where
  index : f'.index = f.index
  span : other.siteSpan f'.site = doc.siteSpan f.site
  evidence : f'.evidence = f.evidence
  typeArgument : Text.equalIgnoringCase f'.typeArgument f.typeArgument = true

/-- The two edits replace the same bytes, by texts that differ at most in case. -/
structure SameEditButCase (e e' : Edit) : Prop where
  start : e'.start = e.start
  stop : e'.stop = e.stop
  replacement : Text.equalIgnoringCase e'.replacement e.replacement = true

/-- Two documents that are the same up to case. -/
structure SameButCase : Prop where
  sites : List.Forall₂ (SameSiteButCase doc other) doc.sites other.sites
  importsNamespace : ∀ name, other.importsNamespace name = doc.importsNamespace name
  declaresFactory : ∀ factory, other.declaresFactory factory = doc.declaresFactory factory
  findings : ∀ policy, List.Forall₂ (SameFindingButCase doc other)
    (doc.findings policy) (other.findings policy)
  edits : ∀ policy factory, List.Forall₂ SameEditButCase
    (doc.edits factory (doc.findings policy)) (other.edits factory (other.findings policy))

end Same

section Read

variable (path path' : String) {source source' : String}
  (h : lowerAscii source = lowerAscii source')
include h

omit h in
theorem stop_lowerToken (t : Token) : (Lexis.lowerToken t).stop = t.stop := by
  rw [Token.stop_eq, Token.stop_eq, Lexis.lowerToken, Text.toList_lowerAscii,
    Text.byteLength_map_toLower]

/-- The tokens with an index are the same, up to case. -/
theorem getElem?_tokens_of_case (i : Nat) :
    (read .visualBasic path' source').tokens[i]?.map Lexis.lowerToken =
      (read .visualBasic path source).tokens[i]?.map Lexis.lowerToken := by
  simp only [read, List.getElem?_toArray, ← List.getElem?_map]
  exact congrArg (·[i]?) (Lexis.map_lowerToken_tokenize h).symm

theorem tokenStart_eq_of_case (i : Nat) : (read .visualBasic path' source').tokenStart i =
    (read .visualBasic path source).tokenStart i := by
  have htokens := congrArg (Option.map Token.start) (getElem?_tokens_of_case path path' h i)
  rw [Option.map_map, Option.map_map] at htokens
  exact congrArg (Option.getD · 0) htokens

theorem tokenStop_eq_of_case (i : Nat) : (read .visualBasic path' source').tokenStop i =
    (read .visualBasic path source).tokenStop i := by
  have htokens := congrArg (Option.map Token.stop) (getElem?_tokens_of_case path path' h i)
  have hstop : Token.stop ∘ Lexis.lowerToken = Token.stop := funext stop_lowerToken
  rw [Option.map_map, Option.map_map, hstop] at htokens
  exact congrArg (Option.getD · 0) htokens

theorem tokenSpan_eq_of_case (first last : Nat) :
    (read .visualBasic path' source').tokenSpan first last =
      (read .visualBasic path source).tokenSpan first last := by
  rw [tokenSpan, tokenSpan, tokenStart_eq_of_case path path' h,
    tokenStop_eq_of_case path path' h]
  exact (Text.span_of_lowerAscii_eq h _ _).symm

theorem sameSiteButCase {s s' : Site}
    (hsite : VisualBasic.lowerCase.site s = VisualBasic.lowerCase.site s') :
    SameSiteButCase (read .visualBasic path source) (read .visualBasic path' source') s s' := by
  have hfirst : s'.first = s.first := (congrArg Site.first hsite).symm
  have hlast : s'.last = s.last := (congrArg Site.last hsite).symm
  have helement : VisualBasic.lowerCase.element s.element =
      VisualBasic.lowerCase.element s'.element := congrArg Site.element hsite
  have hlevels : s'.levels.map VisualBasic.lowerCase.level =
      s.levels.map VisualBasic.lowerCase.level := (congrArg Site.levels hsite).symm
  have hrow := VisualBasic.row_lexemes_eq h
  constructor
  case span => rw [siteSpan, siteSpan, hfirst, hlast, tokenSpan_eq_of_case path path' h]
  case insertionOffset =>
    rw [insertionOffset, insertionOffset, hlast, tokenStart_eq_of_case path path' h]
  case origin => exact (congrArg Site.origin hsite).symm
  case inAttribute => exact (congrArg Site.inAttribute hsite).symm
  case malformed => exact (congrArg Site.malformed hsite).symm
  case isPointer => exact (congrArg ElementType.isPointer helement).symm
  case resolved => exact (congrArg ElementType.resolved helement).symm
  case ranks =>
    have hranks := congrArg (List.map ArrayLevel.rank) hlevels
    simpa [Function.comp_def] using hranks
  case evidence => exact evidence_eq_of_respelled .visualBasic path path' hrow hsite
  case decision => exact decision_eq_of_respelled .visualBasic path path' hrow hsite

omit h in
/-- The type arguments of corresponding sites differ at most in case. -/
theorem lowerAscii_typeArgument {s s' : Site} {argument argument' : String}
    (hsite : VisualBasic.lowerCase.site s = VisualBasic.lowerCase.site s')
    (hargument : Language.visualBasic.typeArgument? s = some argument)
    (hargument' : Language.visualBasic.typeArgument? s' = some argument') :
    lowerAscii argument' = lowerAscii argument := by
  have hparts : VisualBasic.lowerCase.row s'.element.parts =
      VisualBasic.lowerCase.row s.element.parts :=
    (congrArg (fun s : Site => s.element.parts) hsite).symm
  have htexts : (s'.inner.map fun level => Language.visualBasic.levelText level.rank) =
      s.inner.map fun level => Language.visualBasic.levelText level.rank :=
    levelTexts_eq_of_respelled hsite
  rw [typeArgument?_eq] at hargument hargument'
  split at hargument
  · cases hargument
  · split at hargument'
    · cases hargument'
    · cases hargument
      cases hargument'
      rw [Text.lowerAscii_append, Text.lowerAscii_append, htexts,
        ← VisualBasic.lowerAscii_spell_row, hparts, VisualBasic.lowerAscii_spell_row]

omit h in
theorem lowerAscii_invocation (qualifier : Option String) (factory : Factory)
    {argument argument' : String} (h : lowerAscii argument' = lowerAscii argument) :
    lowerAscii (Language.visualBasic.invocation qualifier factory argument') =
      lowerAscii (Language.visualBasic.invocation qualifier factory argument) := by
  simp only [Language.invocation, Text.lowerAscii_append, h]

end Read

/-- Programs of Visual Basic that differ in the case of letters alone are read, judged and fixed
alike. -/
theorem sameButCase_read (path path' : String) {source source' : String}
    (h : Text.equalIgnoringCase source source' = true) :
    SameButCase (read .visualBasic path source) (read .visualBasic path' source') := by
  have hcase : lowerAscii source = lowerAscii source' := of_decide_eq_true h
  have hrow := VisualBasic.row_lexemes_eq hcase
  have hkeeps : VisualBasic.lowerCase.KeepsCanonical ∧ VisualBasic.lowerCase.KeepsCanonical :=
    ⟨VisualBasic.keepsCanonical_lowerCase, VisualBasic.keepsCanonical_lowerCase⟩
  have himports (name : String) : (read .visualBasic path' source').importsNamespace name =
      (read .visualBasic path source).importsNamespace name :=
    importsNamespace_eq_of_respelled .visualBasic path path' hrow (.inr hkeeps)
  have hfindings (policy : Policy) :=
    findings_forall₂ .visualBasic path path' hrow policy
  constructor
  case sites =>
    refine (sites_forall₂ .visualBasic path path' hrow).imp fun s s' hs => ?_
    exact sameSiteButCase path path' hcase hs.2.2
  case importsNamespace => exact himports
  case declaresFactory =>
    exact declaresFactory_eq_of_respelled .visualBasic path path' hrow
  case findings =>
    intro policy
    refine (hfindings policy).imp fun f f' ⟨hf, hf', hsame⟩ => ?_
    exact {
      index := hsame.index
      span := (sameSiteButCase path path' hcase hsame.site).span
      evidence := hsame.evidence
      typeArgument := decide_eq_true
        (lowerAscii_typeArgument hsame.site (of_mem_findings hf).2.2 (of_mem_findings hf').2.2) }
  case edits =>
    intro policy factory
    refine (edits_forall₂_of_respelled .visualBasic path path' (hfindings policy)).imp
      fun e e' he => ?_
    obtain ⟨f, f', he⟩ := he
    refine ⟨?_, ?_, decide_eq_true ?_⟩
    · rw [he.place.start, he.place'.start]
      exact tokenStart_eq_of_case path path' hcase _
    · rw [he.place.stop, he.place'.stop]
      cases f.site.editPlace with
      | spanning first last => exact tokenStop_eq_of_case path path' hcase last
      | before index => exact tokenStart_eq_of_case path path' hcase index
    · have hqualifier : (read .visualBasic path' source').usesShortForm factory =
          (read .visualBasic path source).usesShortForm factory := himports _
      have hargument :=
        lowerAscii_typeArgument he.findings.site he.typeArgument he.typeArgument'
      rw [he.replacement, he.replacement', Text.lowerAscii_append, Text.lowerAscii_append,
        replacement, replacement, hqualifier]
      congr 1
      exact lowerAscii_invocation _ factory hargument

/-- An empty array in a file that imports the factory. -/
def mixedCase : String := "Imports System\nDim a = New Integer() \x7b\x7d"

/-- The same program, with its words in other cases. -/
def otherCase : String := "IMPORTS system\ndim A = new INTEGER() \x7b\x7d"

theorem sameButCase_imports :
    Text.equalIgnoringCase mixedCase otherCase = true ∧
      ((read .visualBasic "a.vb" mixedCase).findings ⟨true, false, .skip⟩).length = 1 ∧
      SameButCase (read .visualBasic "a.vb" mixedCase) (read .visualBasic "b.vb" otherCase) :=
  have hcase : Text.equalIgnoringCase mixedCase otherCase = true := by decide
  ⟨hcase, by decide +kernel, sameButCase_read "a.vb" "b.vb" hcase⟩

end Document

end ZeroAlloc
