import ZeroAlloc.Decision
import ZeroAlloc.Proofs.CSharp.Behind
import ZeroAlloc.Proofs.Document.Attributes
import ZeroAlloc.Proofs.Document.WellFormed
import ZeroAlloc.Proofs.Lexis.Behind
import ZeroAlloc.Proofs.VisualBasic.Behind
set_option autoImplicit false

/-! # Files behind a first line or mark

In the lexemes of a file, a comment line in front changes nothing but places, and a byte-order mark
takes away what only the very start of the file can have. Where the tokens of a text are those of
another one, moved up behind some more in front, so are the places of its sites. A first line moves
them down by one line and leaves their columns (`Document.siteSpan_behind_comment`). -/

namespace ZeroAlloc

open Text (byteLength byteLength_append)

namespace Language

/-! ## Behind a comment line -/

section CommentLine

variable (language : Language) (ls : List Lexeme)

theorem sites_behind_comment :
    language.sites (language.afterCommentLine ++ ls) =
      (language.sites ls).map (Site.shift language.afterCommentLine.length) := by
  cases language with
  | csharp => exact (List.map_id'' Site.shift_zero _).symm
  | visualBasic =>
    obtain ⟨found, hls, hbehind⟩ := VisualBasic.exists_sites_cons .lineBreak ls
    refine hbehind.trans ?_
    rw [VisualBasic.attributeBlocks_lineBreak]
    refine Eq.trans (List.map_congr_left fun s _ => Site.markAttribute_shift _ 1 s) ?_
    change _ = (VisualBasic.sites ls).map (Site.shift 1)
    rw [hls, List.map_map]
    rfl

theorem constants_behind_comment :
    language.constants (language.afterCommentLine ++ ls) = language.constants ls := by
  cases language with
  | csharp => rfl
  | visualBasic => exact VisualBasic.constants_cons .lineBreak ls

theorem genericMethods_behind_comment :
    language.genericMethods (language.afterCommentLine ++ ls) = language.genericMethods ls := by
  cases language with
  | csharp => rfl
  | visualBasic => exact VisualBasic.genericMethods_cons .lineBreak ls

end CommentLine

/-! ## Behind a byte-order mark -/

/-- The imports that stand at the very start of a file. -/
def leadingImports : Language → List Lexeme → List Import
  | csharp, ls => (CSharp.leadingImport? ls).toList
  | visualBasic, ls => VisualBasic.leadingImports ls

section Mark

variable (language : Language) (ls : List Lexeme)

/-- Behind a mark a file has the same sites, but some of the attribute sections at its start are
missed. -/
theorem exists_sites_behind_mark :
    ∃ found : List Site, ∃ missed others, AdjoinFrom 0 missed ∧
      language.attributeSections ls = missed ++ others ∧
      language.attributeSections (⟨.error, "\ufeff"⟩ :: ls) =
        others.map (fun (first, last) => (first + 1, last + 1)) ∧
      language.sites ls = found.map (Site.markAttribute (missed ++ others)) ∧
      language.sites (⟨.error, "\ufeff"⟩ :: ls) =
        found.map fun s => (s.markAttribute others).shift 1 := by
  cases language with
  | csharp =>
    obtain ⟨found, hls, hbehind⟩ := CSharp.exists_sites_cons .byteOrderMark ls
    obtain ⟨missed, others, hadjoin, hsections, hmore⟩ :=
      CSharp.exists_attributeSections_cons .byteOrderMark ls
    refine ⟨found, missed, others, hadjoin, hsections, hmore, hsections ▸ hls, hbehind.trans ?_⟩
    rw [hmore]
    exact List.map_congr_left fun s _ => Site.markAttribute_shift _ 1 s
  | visualBasic =>
    obtain ⟨found, hls, hbehind⟩ := VisualBasic.exists_sites_cons .byteOrderMark ls
    obtain ⟨missed, others, hadjoin, hsections, hmore⟩ :=
      VisualBasic.exists_attributeBlocks_byteOrderMark ls
    refine ⟨found, missed, others, hadjoin, hsections, hmore, hsections ▸ hls, hbehind.trans ?_⟩
    rw [hmore]
    exact List.map_congr_left fun s _ => Site.markAttribute_shift _ 1 s

theorem exists_imports_behind_mark :
    ∃ others, language.imports ls = language.leadingImports ls ++ others ∧
      language.imports (⟨.error, "\ufeff"⟩ :: ls) = others.map (Import.shift 1) := by
  cases language with
  | csharp => exact CSharp.exists_imports_cons .byteOrderMark ls
  | visualBasic => exact VisualBasic.exists_imports_byteOrderMark ls

theorem constants_behind_mark :
    language.constants (⟨.error, "\ufeff"⟩ :: ls) = language.constants ls := by
  cases language with
  | csharp => exact CSharp.constants_cons .byteOrderMark ls
  | visualBasic => exact VisualBasic.constants_cons .byteOrderMark ls

theorem genericMethods_behind_mark :
    language.genericMethods (⟨.error, "\ufeff"⟩ :: ls) = language.genericMethods ls := by
  cases language with
  | csharp => exact CSharp.genericMethods_cons .byteOrderMark ls
  | visualBasic => exact VisualBasic.genericMethods_cons .byteOrderMark ls

end Mark

end Language

/-! ## Sites that are moved up -/

section Shift

variable (language : Language) (constants : Constants) (n : Nat) (s : Site)

theorem Site.evidence_shift :
    (s.shift n).evidence language constants = s.evidence language constants := by
  unfold evidence
  cases hinitializer : s.initializer <;> simp [shift, hinitializer]

theorem Site.decision_shift (policy : Policy) :
    (s.shift n).decision language constants policy = s.decision language constants policy := by
  unfold decision
  rw [evidence_shift]
  rfl

theorem Language.typeArgument?_shift :
    language.typeArgument? (s.shift n) = language.typeArgument? s := rfl

end Shift

namespace Document

/-! ## Tokens that are moved up -/

section Moved

variable {language : Language} (path : String) {source source' : String} {lead : List Token}
  {n : Nat}
  (h : Lexis.tokenize language.rules source' =
    lead ++ (Lexis.tokenize language.rules source).map (Token.shift n))
include h

theorem getElem?_tokens_behind (i : Nat) :
    (read language path source').tokens.toList[i + lead.length]? =
      (read language path source).tokens.toList[i]?.map (Token.shift n) := by
  change (Lexis.tokenize language.rules source')[i + lead.length]? =
    (Lexis.tokenize language.rules source)[i]?.map (Token.shift n)
  rw [h, List.getElem?_append_right (Nat.le_add_left _ _), Nat.add_sub_cancel, List.getElem?_map]

theorem tokenStart_behind {i : Nat} (hi : i < (read language path source).tokens.toList.length) :
    (read language path source').tokenStart (i + lead.length) =
      (read language path source).tokenStart i + n := by
  have ht := List.getElem?_eq_getElem hi
  have ht' := getElem?_tokens_behind path h i
  rw [ht] at ht'
  rw [tokenStart_of_getElem? ht, tokenStart_of_getElem? ht', Token.start_shift]

theorem tokenStop_behind {i : Nat} (hi : i < (read language path source).tokens.toList.length) :
    (read language path source').tokenStop (i + lead.length) =
      (read language path source).tokenStop i + n := by
  have ht := List.getElem?_eq_getElem hi
  have ht' := getElem?_tokens_behind path h i
  rw [ht] at ht'
  rw [tokenStop_of_getElem? ht, tokenStop_of_getElem? ht', Token.stop_shift]

theorem lexemes_behind : lexemes (Lexis.tokenize language.rules source') =
    lexemes lead ++ lexemes (Lexis.tokenize language.rules source) := by
  rw [h, lexemes, List.map_append]
  exact congrArg _ (lexemes_shift n _)

theorem hasErrors_behind : (read language path source').hasErrors =
    (lead.any (·.isError) || (read language path source).hasErrors) := by
  have hany (source : String) : (read language path source).hasErrors =
      (Lexis.tokenize language.rules source).any fun t => t.isError := List.any_toArray
  rw [hany, hany, h, List.any_append, List.any_map]
  rfl

/-- A range of tokens holds the same piece of text in either place. -/
theorem exists_cutsOut_behind {pre : List Char} (hsource : source'.toList = pre ++ source.toList)
    (hn : n = byteLength pre) {i j : Nat} (hij : i ≤ j)
    (hj : j < (read language path source).tokens.toList.length) :
    ∃ before piece behind,
      ((read language path source).tokenSpan i j).CutsOut source.toList before piece behind ∧
      ((read language path source').tokenSpan (i + lead.length) (j + lead.length)).CutsOut
        source'.toList (pre ++ before) piece behind := by
  obtain ⟨before, piece, behind, -, hcuts⟩ := exists_cutsOut_tokenSpan hij hj
  refine ⟨before, piece, behind, hcuts, ?_⟩
  have hspan : (read language path source').tokenSpan (i + lead.length) (j + lead.length) =
      .of source'.toList (byteLength (pre ++ before)) (byteLength (pre ++ before ++ piece)) := by
    rw [tokenSpan, tokenStart_behind path h (Nat.lt_of_le_of_lt hij hj),
      tokenStop_behind path h hj, hn,
      List.append_assoc, byteLength_append, byteLength_append, ← hcuts.stop, ← hcuts.start,
      Nat.add_comm (byteLength pre), Nat.add_comm (byteLength pre)]
    rfl
  have htext : source'.toList = pre ++ before ++ (piece ++ behind) := by
    rw [hsource, hcuts.text, List.append_assoc]
  rw [hspan, htext]
  exact Text.Span.cutsOut_of (pre ++ before) piece behind

end Moved

/-! ## Behind a comment line -/

section CommentLine

variable (language : Language) (path : String) {line : String} (h : '\n' ∉ line.toList)
  (source : String)

/-- The text behind a comment line. -/
def behindComment (language : Language) (line source : String) : String :=
  language.commentMark ++ line ++ "\n" ++ source

include h

theorem lexemes_behind_comment :
    lexemes (Lexis.tokenize language.rules (behindComment language line source)) =
      language.afterCommentLine ++ lexemes (Lexis.tokenize language.rules source) := by
  obtain ⟨lead, hlead, htokens⟩ := Lexis.exists_tokenize_behind_comment language source h
  rw [behindComment, lexemes_behind htokens, hlead]

theorem sites_behind_comment : (read language path (behindComment language line source)).sites =
    (read language path source).sites.map (Site.shift language.afterCommentLine.length) :=
  (congrArg language.sites (lexemes_behind_comment language h source)).trans
    (language.sites_behind_comment _)

theorem constants_behind_comment :
    (read language path (behindComment language line source)).constants =
      (read language path source).constants :=
  (congrArg language.constants (lexemes_behind_comment language h source)).trans
    (language.constants_behind_comment _)

theorem genericMethods_behind_comment :
    (read language path (behindComment language line source)).genericMethods =
      (read language path source).genericMethods :=
  (congrArg language.genericMethods (lexemes_behind_comment language h source)).trans
    (language.genericMethods_behind_comment _)

theorem hasErrors_behind_comment :
    (read language path (behindComment language line source)).hasErrors =
      (read language path source).hasErrors := by
  obtain ⟨lead, hlead, htokens⟩ := Lexis.exists_tokenize_behind_comment language source h
  have hnone : lead.any (·.isError) = false := by
    have hmap : lead.any (·.isError) = (lexemes lead).any Lexeme.isError := by
      rw [lexemes, List.any_map]
      rfl
    rw [hmap, hlead]
    cases language <;> rfl
  rw [behindComment, hasErrors_behind path htokens, hnone, Bool.false_or]

/-- A first line moves a site down by one line. -/
theorem siteSpan_behind_comment {s : Site} (hs : s ∈ (read language path source).sites) :
    ((read language path (behindComment language line source)).siteSpan
        (s.shift language.afterCommentLine.length)).first =
      ⟨((read language path source).siteSpan s).first.line + 1,
        ((read language path source).siteSpan s).first.column⟩ ∧
    ((read language path (behindComment language line source)).siteSpan
        (s.shift language.afterCommentLine.length)).last =
      ⟨((read language path source).siteSpan s).last.line + 1,
        ((read language path source).siteSpan s).last.column⟩ := by
  obtain ⟨lead, hlead, htokens⟩ := Lexis.exists_tokenize_behind_comment language source h
  have hlength : language.afterCommentLine.length = lead.length := by
    rw [← hlead, lexemes, List.length_map]
  have hline : '\n' ∉ (language.commentMark ++ line).toList := by
    rw [String.toList_append, List.mem_append]
    cases language <;> simpa [Language.commentMark] using h
  have hmarkLine (pre : List Char) : (language.commentMark ++ line ++ "\n").toList ++ pre =
      (language.commentMark ++ line).toList ++ '\n' :: pre := by
    simp
  obtain ⟨before, piece, behind, hcuts, hcuts'⟩ := exists_cutsOut_behind path htokens
    String.toList_append rfl (Language.liesIn_of_mem_sites hs).first_le_last
    (last_lt_length_of_mem_sites hs)
  rw [hlength]
  constructor
  · refine hcuts'.first.trans ?_
    rw [hmarkLine, Text.Position.behind_line hline, ← hcuts.first]
    rfl
  · refine hcuts'.last.trans ?_
    rw [List.append_assoc, hmarkLine, Text.Position.behind_line hline, ← hcuts.last]
    rfl

/-- A first line changes nothing about the findings but their places. -/
theorem findings_behind_comment (policy : Policy) :
    (read language path (behindComment language line source)).findings policy =
      ((read language path source).findings policy).map fun finding =>
        { finding with site := finding.site.shift language.afterCommentLine.length } := by
  unfold findings
  rw [hasErrors_behind_comment language path h, sites_behind_comment language path h,
    constants_behind_comment language path h]
  split
  · rw [List.zipIdx_map, List.filterMap_map, List.map_filterMap]
    congr 1
    funext ⟨s, index⟩
    simp only [Function.comp_apply, Prod.map_apply, id_eq, Site.decision_shift,
      Site.evidence_shift, Language.typeArgument?_shift]
    rw [apply_ite (Option.map _), Option.map_map]
    rfl
  · rfl

end CommentLine

end Document

end ZeroAlloc
