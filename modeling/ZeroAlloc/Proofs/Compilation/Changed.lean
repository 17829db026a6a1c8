import ZeroAlloc.Proofs.Compilation.Fixes
import ZeroAlloc.Proofs.Decision.Elements
import ZeroAlloc.Proofs.Lexis.Following
set_option autoImplicit false

/-! # Fixing changes a file

With a valid configuration, a fix that has edits changes the text of its file
(`IsFixOf.fixed_ne_source`). The call of the factory starts with a dotted name, which no flagged
allocation does, so the texts differ at the first cut at the latest. -/

namespace ZeroAlloc

open Edit (Cut IsSplice)
open Text (byteLength)

/-- The names of the factory are dotted identifiers. -/
def Factory.IsNamed (factory : Factory) : Prop :=
  ∀ (field : FactoryField), ∀ c ∈ (field.value factory).toList, isNameChar c = true

/-- What starts with a dotted name starts with no other text. -/
theorem not_startsNoDottedName {name : List Char} (hname : ∀ c ∈ name, isNameChar c = true)
    (rest : List Char) : ¬StartsNoDottedName (name ++ '.' :: rest) := by
  rw [StartsNoDottedName, Decidable.not_not, List.takeWhile_append_of_pos hname,
    List.takeWhile_cons_of_pos (by decide)]
  simp

/-- A bracket starts no name. -/
theorem startsNoDottedName_of_opensGroup {l : Lexeme} (h : l.opensGroup = true)
    (rest : List Char) : StartsNoDottedName (l.text.toList ++ rest) := by
  have hbracket : l.text = "(" ∨ l.text = "[" ∨ l.text = "\x7b" := by
    simp only [Lexeme.opensGroup, Lexeme.isPunct, Bool.or_eq_true, Bool.and_eq_true,
      decide_eq_true_eq] at h
    exact h.elim (fun h => h.elim (fun h => .inl h.2) fun h => .inr (.inl h.2))
      fun h => .inr (.inr h.2)
  have hnone {c : Char} (hc : isNameChar c = false) :
      StartsNoDottedName ((String.ofList [c]).toList ++ rest) := by
    rw [StartsNoDottedName, String.toList_ofList, List.singleton_append,
      List.takeWhile_cons_of_neg (by simp [hc])]
    exact List.not_mem_nil
  rcases hbracket with htext | htext | htext
  · rw [htext]
    exact hnone (c := '(') (by decide)
  · rw [htext]
    exact hnone (c := '[') (by decide)
  · rw [htext]
    exact hnone (c := '\x7b') (by decide)

/-- A call of the factory starts with its qualifier or, without one, with the name of the type. -/
theorem Language.exists_invocation (language : Language) (qualifier : Option String)
    (factory : Factory) (typeArgument : String) :
    ∃ rest, (language.invocation qualifier factory typeArgument).toList =
      (qualifier.getD factory.typeName).toList ++ '.' :: rest := by
  cases qualifier with
  | none =>
    cases language with
    | csharp =>
      exact ⟨(factory.method ++ "<" ++ typeArgument ++ ">()").toList, by simp [invocation]⟩
    | visualBasic =>
      exact ⟨(factory.method ++ "(Of " ++ typeArgument ++ ")()").toList, by simp [invocation]⟩
  | some q =>
    let method := factory.typeName ++ "." ++ factory.method
    cases language with
    | csharp =>
      exact ⟨(method ++ "<" ++ typeArgument ++ ">()").toList, by simp [invocation, method]⟩
    | visualBasic =>
      exact ⟨(method ++ "(Of " ++ typeArgument ++ ")()").toList, by simp [invocation, method]⟩

namespace Document

variable {language : Language} {path source : String} {s : Site}

/-! ## The text at a site -/

theorem exists_tokens_of_drop {doc : Document} {k : Nat} {l : Lexeme} {rest : List Lexeme}
    (h : (lexemes doc.tokens.toList).drop k = l :: rest) :
    ∃ t, doc.tokens.toList[k]? = some t ∧ t.toLexeme = l ∧
      (lexemes doc.tokens.toList).drop (k + 1) = rest := by
  have hl : (lexemes doc.tokens.toList)[k]? = some l := by
    rw [← Nat.add_zero k, ← List.getElem?_drop, h]
    rfl
  obtain ⟨t, ht, htl⟩ := exists_token_of_getElem? hl
  refine ⟨t, by rwa [Array.getElem?_toList], htl, ?_⟩
  rw [← List.drop_drop, h]
  rfl

/-- A written allocation starts with no dotted name. -/
theorem startsNoDottedName_of_written (hs : s ∈ (read language path source).sites)
    (hwritten : s.origin.isCompilerGenerated = false) :
    ∃ before behind, source.toList = before ++ behind ∧
      ((read language path source).siteSpan s).start = byteLength before ∧
      StartsNoDottedName behind := by
  have hlook := isWrittenIn_of_mem_sites hs
  cases horigin : s.origin with
  | explicit =>
    obtain ⟨new, next, rest, hdrop, hident, hword, hstarts⟩ := hlook.creation horigin
    obtain ⟨t, ht, rfl, hmore⟩ := exists_tokens_of_drop hdrop
    obtain ⟨u, hu, rfl, -⟩ := exists_tokens_of_drop hmore
    obtain ⟨before, behind, hsource, hstart, hnone⟩ :=
      Language.exists_behind_new ht hu hident hword hstarts
    exact ⟨before, _, hsource, (tokenStart_of_getElem? ht).trans hstart, hnone⟩
  | implicitInitializer =>
    obtain ⟨⟨i, hi, hopening⟩, -⟩ := (isProper_of_mem_sites hs).implicit horigin
    obtain ⟨opening, inside, close, rest, hdrop, -, hopens, -⟩ := hlook.initializer hwritten i hi
    rw [hopening] at hdrop
    obtain ⟨t, ht, rfl, -⟩ := exists_tokens_of_drop hdrop
    obtain ⟨before, c, more, n, hsource, hstart, htext, -⟩ := Lexis.exists_rest_of_getElem? ht
    have hbehind : c :: more = t.text.toList ++ more.drop n := by
      rw [htext, List.cons_append, List.take_append_drop]
    refine ⟨before, c :: more, hsource, ?_, ?_⟩
    · rw [Nat.zero_add] at hstart
      exact (tokenStart_of_getElem? ht).trans hstart
    · rw [hbehind]
      exact startsNoDottedName_of_opensGroup hopens _
  | paramArray needsSeparator =>
    rw [horigin] at hwritten
    cases hwritten

/-! ## The text of a replacement -/

/-- The call of the factory starts with a dotted name. -/
theorem exists_dottedName_of_replacement (doc : Document) {factory : Factory}
    (hfactory : factory.IsNamed) (finding : Finding) :
    ∃ name rest, (doc.replacement factory finding).toList = name ++ '.' :: rest ∧
      ∀ c ∈ name, isNameChar c = true := by
  unfold replacement
  cases doc.usesShortForm factory with
  | true =>
    obtain ⟨rest, hrest⟩ := doc.language.exists_invocation none factory finding.typeArgument
    exact ⟨_, rest, hrest, hfactory .typeName⟩
  | false =>
    obtain ⟨rest, hrest⟩ := doc.language.exists_invocation (some factory.namespaceName) factory
      finding.typeArgument
    exact ⟨_, rest, hrest, hfactory .namespaceName⟩

end Document

namespace Compilation

variable {c : Compilation} {doc : Document} {sources : List (String × String)}

theorem IsReadFrom.startsNoDottedName {s : Site} (hread : IsReadFrom sources doc)
    (hs : s ∈ doc.sites) (hwritten : s.origin.isCompilerGenerated = false) :
    ∃ before behind, doc.source.toList = before ++ behind ∧
      (doc.siteSpan s).start = byteLength before ∧ StartsNoDottedName behind := by
  rw [hread.read] at hs ⊢
  exact Document.startsNoDottedName_of_written hs hwritten

/-- What a cut inserts differs from the text at its place, at the first character or in the name
that the inserted call starts with. -/
theorem replacement_ne {finding : Finding} {cut : Cut} {head later more : List Char}
    (hfactory : c.config.factory.IsNamed) (hread : IsReadFrom sources doc)
    (hs : finding.site ∈ doc.sites)
    (hcut : doc.RemovedBy c.config.factory finding cut later)
    (hsource : doc.source.toList = head ++ (cut.removed ++ later))
    (hstart : cut.edit.start = byteLength head) :
    cut.removed ++ later ≠ cut.edit.replacement.toList ++ more := by
  intro hsame
  obtain ⟨name, rest, hcall, hname⟩ :=
    doc.exists_dottedName_of_replacement hfactory finding
  have hwritten (horigin : finding.site.origin.isCompilerGenerated = false)
      (hplace : cut.edit.start = (doc.siteSpan finding.site).start)
      (hreplacement : cut.edit.replacement = doc.replacement c.config.factory finding) : False := by
    obtain ⟨before, behind, hsplit, hbefore, hnone⟩ := hread.startsNoDottedName hs horigin
    have hbehind : cut.removed ++ later = behind :=
      Text.append_right_inj_of_byteLength (hsource.symm.trans hsplit)
        (by rw [← hstart, hplace, hbefore])
    rw [← hbehind, hsame, hreplacement, hcall, List.append_assoc, List.cons_append] at hnone
    exact not_startsNoDottedName hname _ hnone
  unfold Document.RemovedBy at hcut
  cases horigin : finding.site.origin with
  | explicit =>
    rw [horigin] at hcut
    exact hwritten (by rw [horigin]; rfl) hcut.1 hcut.2.2
  | implicitInitializer =>
    rw [horigin] at hcut
    exact hwritten (by rw [horigin]; rfl) hcut.1 hcut.2.2
  | paramArray needsSeparator =>
    rw [horigin] at hcut
    obtain ⟨hremoved, hclose, -, hreplacement⟩ := hcut
    -- the source goes on with a bracket, and the insertion starts with a comma or a name
    rw [hremoved, List.nil_append] at hsame
    rw [hsame, hreplacement, String.toList_append, hcall] at hclose
    cases needsSeparator with
    | true => cases hclose
    | false =>
      cases name with
      | nil => cases hclose
      | cons d name =>
        cases hclose
        exact absurd (hname ')' List.mem_cons_self) (by decide)

/-- A fix with edits changes its file. -/
theorem IsFixOf.fixed_ne_source {fix : FileFix} (hfactory : c.config.factory.IsNamed)
    (hread : IsReadFrom sources doc) (hfix : c.IsFixOf doc fix) (hedits : fix.edits ≠ []) :
    fix.fixed ≠ doc.source := by
  intro hsame
  obtain ⟨head, cuts, hperm, hsplice, hremoved⟩ := hfix.spliced
  cases cuts with
  | nil => exact hedits (List.nil_perm.1 hperm)
  | cons cut later =>
    obtain ⟨finding, hactive, -, hcut⟩ := hremoved [] cut later rfl
    obtain ⟨hstart, -⟩ := hsplice.placed [] cut later rfl
    have hbefore := hsplice.before
    have hafter := hsplice.after
    rw [List.flatMap_cons, Cut.old, List.append_assoc] at hbefore
    rw [List.flatMap_cons, Cut.new, List.append_assoc, hsame, hbefore] at hafter
    refine replacement_ne hfactory hread hactive.mem_sites hcut hbefore ?_
      (List.append_cancel_left hafter)
    simpa using hstart

end Compilation

end ZeroAlloc
