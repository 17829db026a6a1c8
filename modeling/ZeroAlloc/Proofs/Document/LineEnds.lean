import Mathlib.Data.List.Forall2
import ZeroAlloc.Proofs.Edit.Splice
import ZeroAlloc.Proofs.Respelling.LineEnds
import ZeroAlloc.Proofs.Text.LineEnds
set_option autoImplicit false

/-! # Line ends in documents

Edits at corresponding places of a text and of the text with carriage returns give corresponding
texts, if what they put in corresponds (`Edit.apply_returned`). A document whose lines end with
carriage return and line feed is read, judged and fixed as the one with plain line feeds: its
findings are at the same lines and columns (`samePositions_of_findsSame`), and its edits put the
same calls at the same places (`edits_returned`). -/

namespace ZeroAlloc

open Text (SameOffset byteLength byteLength_append returned returned_append returned_eq_self
  withReturns withReturns_append)

/-- Related lists stay related when they are sorted, if related members are in one order. -/
theorem forall₂_mergeSort {α β : Type} {R : α → β → Prop} {le : α → α → Bool} {le' : β → β → Bool}
    (hle : ∀ a a' b b', R a a' → R b b' → le a b = le' a' b') {l : List α} {l' : List β}
    (h : List.Forall₂ R l l') : List.Forall₂ R (l.mergeSort le) (l'.mergeSort le') := by
  obtain ⟨hlength, hzip⟩ := List.forall₂_iff_zip.1 h
  -- sort the pairs by their first parts, which sorts them by their second parts too
  have hfirst : ((l.zip l').mergeSort fun p q => le p.1 q.1).map Prod.fst = l.mergeSort le := by
    rw [List.map_mergeSort (s := le) fun _ _ _ _ => rfl, List.map_fst_zip (Nat.le_of_eq hlength)]
  have hsecond : ((l.zip l').mergeSort fun p q => le p.1 q.1).map Prod.snd = l'.mergeSort le' := by
    rw [List.map_mergeSort (s := le') fun _ hp _ hq => hle _ _ _ _ (hzip hp) (hzip hq),
      List.map_snd_zip (Nat.le_of_eq hlength.symm)]
  rw [← hfirst, ← hsecond, List.forall₂_map_left_iff, List.forall₂_map_right_iff,
    List.forall₂_same]
  exact fun p hp => hzip (List.mem_mergeSort.1 hp)

namespace Edit

/-- The second edit is the first one, in the text with carriage returns. -/
structure SameButReturns (cs : List Char) (e e' : Edit) : Prop where
  start : SameOffset cs e.start e'.start
  stop : SameOffset cs e.stop e'.stop
  replacement : e'.replacement = returned e.replacement

section Same

variable {cs : List Char} {e e' other other' : Edit}

theorem comesBefore_eq_of_same (h : SameButReturns cs e e') (h' : SameButReturns cs other other') :
    e.comesBefore other = e'.comesBefore other' := by
  have hstart := h.start.lt_iff_lt h'.start
  have hstart' := h'.start.lt_iff_lt h.start
  have hstop := h'.stop.lt_iff_lt h.stop
  rw [Bool.eq_iff_iff]
  simp only [comesBefore, Bool.or_eq_true, Bool.and_eq_true, decide_eq_true_eq, beq_iff_eq]
  omega

/-- The edit replaces what the removed piece is in the text with carriage returns. -/
theorem SameButReturns.place (front : List Char) {pre removed post : List Char}
    (h : SameButReturns (front ++ (pre ++ (removed ++ post))) e e')
    (hstart : e.start = byteLength front + byteLength pre)
    (hstop : e.stop = e.start + byteLength removed) :
    e'.start = byteLength (withReturns front) + byteLength (withReturns pre) ∧
      e'.stop = e'.start + byteLength (withReturns removed) := by
  obtain ⟨hfirst, hlast, _⟩ := h
  rw [hstop, hstart, ← byteLength_append, ← byteLength_append, ← List.append_assoc,
    ← List.append_assoc] at hlast
  rw [hstart, ← byteLength_append, ← List.append_assoc] at hfirst
  have hplace := hfirst.eq_byteLength
  refine ⟨by rw [hplace, withReturns_append, byteLength_append], ?_⟩
  rw [hlast.eq_byteLength, hplace, withReturns_append, byteLength_append]

end Same

/-- The edits stand behind the first part of the text, one behind the other. -/
theorem splice_withReturns {whole : List Char} (front cs : List Char) {es es' : List Edit}
    (hwhole : whole = front ++ cs) (hsame : List.Forall₂ (SameButReturns whole) es es')
    (hfits : ∀ e ∈ es, e.FitsIn (byteLength front) cs)
    (hsorted : es.Pairwise fun e other => e.stop ≤ other.start) :
    splice (byteLength (withReturns front)) (withReturns cs) es' =
      withReturns (splice (byteLength front) cs es) := by
  induction hsame generalizing front cs with
  | nil => rfl
  | @cons e e' es es' hfirst _ ih =>
    obtain ⟨⟨pre, removed, post, rfl, hstart, hstop⟩, hmore⟩ := List.forall_mem_cons.1 hfits
    obtain ⟨hlater, hsorted⟩ := List.pairwise_cons.1 hsorted
    subst hwhole
    obtain ⟨hstart', hstop'⟩ := hfirst.place front hstart hstop
    have hend : e.stop = byteLength (front ++ (pre ++ removed)) := by
      rw [hstop, hstart, byteLength_append, byteLength_append, Nat.add_assoc]
    have hend' : e'.stop = byteLength (withReturns (front ++ (pre ++ removed))) := by
      rw [hstop', hstart', withReturns_append, withReturns_append, byteLength_append,
        byteLength_append, Nat.add_assoc]
    have hrest := fitsIn_rest hstart hstop hmore hlater
    rw [hend] at hrest
    have hsplice := ih (front ++ (pre ++ removed)) post (by simp) hrest hsorted
    rw [withReturns_append, withReturns_append, splice_cons hstart' hstop',
      splice_cons hstart hstop, hend, hend', hsplice, hfirst.replacement, Text.toList_returned,
      withReturns_append, withReturns_append]

theorem FitsIn.of_same {cs : List Char} {e e' : Edit} (h : SameButReturns cs e e')
    (hfits : e.FitsIn 0 cs) : e'.FitsIn 0 (withReturns cs) := by
  obtain ⟨pre, removed, post, rfl, hstart, hstop⟩ := hfits
  obtain ⟨hstart', hstop'⟩ := SameButReturns.place [] h hstart hstop
  exact ⟨_, _, _, by rw [withReturns_append, withReturns_append], hstart', hstop'⟩

/-- Edits at corresponding places give corresponding texts. -/
theorem apply_returned {source : String} {es es' : List Edit}
    (hsame : List.Forall₂ (SameButReturns source.toList) es es')
    (hfits : ∀ e ∈ es, e.FitsIn 0 source.toList)
    (hapart : es.Pairwise fun e other => e.overlaps other = false)
    (hapart' : es'.Pairwise fun e other => e.overlaps other = false) :
    ∃ fixed, apply source es = .ok fixed ∧ apply (returned source) es' = .ok (returned fixed) := by
  have hfits' : ∀ e' ∈ es', e'.FitsIn 0 (returned source).toList := by
    intro e' he'
    obtain ⟨i, hi, rfl⟩ := List.getElem_of_mem he'
    have hi' : i < es.length := by rwa [hsame.length_eq]
    have h := hsame.get hi' hi
    rw [Text.toList_returned]
    exact (hfits _ (List.getElem_mem hi')).of_same h
  have hsorted : List.Forall₂ (SameButReturns source.toList) (es.mergeSort comesBefore)
      (es'.mergeSort comesBefore) :=
    forall₂_mergeSort (R := SameButReturns source.toList)
      (fun _ _ _ _ => comesBefore_eq_of_same) hsame
  have hsplice := splice_withReturns [] source.toList rfl hsorted
    (fun e he => hfits e (List.mem_mergeSort.1 he)) (pairwise_stop_le_start hfits hapart)
  refine ⟨_, apply_eq_ok hfits hapart, ?_⟩
  rw [apply_eq_ok hfits' hapart', Text.toList_returned, returned, String.toList_ofList]
  exact congrArg (fun cs => Except.ok (String.ofList cs)) hsplice

end Edit

/-! ## Ends of sites -/

theorem Lexeme.kind_of_opensGroup {l : Lexeme} (h : l.opensGroup = true) : l.kind = .punct := by
  simp only [opensGroup, isPunct, Bool.or_eq_true, Bool.and_eq_true, decide_eq_true_eq] at h
  rcases h with (h | h) | h <;> exact h.1

theorem Lexeme.kind_of_closesGroup {l : Lexeme} (h : l.closesGroup = true) : l.kind = .punct := by
  simp only [closesGroup, isPunct, Bool.or_eq_true, Bool.and_eq_true, decide_eq_true_eq] at h
  rcases h with (h | h) | h <;> exact h.1

/-- The first lexeme of a site is no line break. -/
theorem Site.IsCutFrom.exists_first {s : Site} {row ls : List Lexeme} (h : s.IsCutFrom row ls) :
    ∃ l, ls[s.first]? = some l ∧ l.kind ≠ .newline := by
  obtain ⟨l, hl, hword | hopens⟩ := h.first
  · have hkind : l.kind = .ident := by simpa [Lexeme.isIdent] using hword
    exact ⟨l, hl, by simp [hkind]⟩
  · exact ⟨l, hl, by simp [Lexeme.kind_of_opensGroup hopens]⟩

/-- Related lists have related members at each index. -/
theorem exists_getElem?_of_forall₂ {α β : Type} {R : α → β → Prop} {l : List α} {l' : List β}
    (h : List.Forall₂ R l l') {i : Nat} {a : α} (ha : l[i]? = some a) :
    ∃ b, l'[i]? = some b ∧ R a b := by
  induction h generalizing i with
  | nil => cases ha
  | @cons c d _ _ hcd _ ih =>
    cases i with
    | zero =>
      cases ha
      exact ⟨d, rfl, hcd⟩
    | succ i => exact ih ha

/-! ## Replacements -/

/-- The name of the factory has no marks. -/
structure Factory.IsUnmarked (factory : Factory) : Prop where
  namespaceName : holdsMark factory.namespaceName = false
  typeName : holdsMark factory.typeName = false
  method : holdsMark factory.method = false

theorem returned_eq_self_of_unmarked {text : String} (h : holdsMark text = false) :
    returned text = text := by
  refine returned_eq_self fun hfeed => ?_
  rw [holdsMark_iff.2 ⟨'\n', hfeed, by decide⟩] at h
  cases h

/-- A call gets the carriage returns of its type argument. -/
theorem returned_invocation (language : Language) {factory : Factory}
    (hfactory : factory.IsUnmarked) {qualifier : Option String}
    (hqualifier : ∀ q, qualifier = some q → holdsMark q = false)
    (argument : String) : returned (language.invocation qualifier factory argument) =
      language.invocation qualifier factory (returned argument) := by
  have htypeName := returned_eq_self_of_unmarked hfactory.typeName
  have hmethod := returned_eq_self_of_unmarked hfactory.method
  have hpoint : returned "." = "." := rfl
  have hsharp : returned "<" = "<" ∧ returned ">()" = ">()" := ⟨rfl, rfl⟩
  have hbasic : returned "(Of " = "(Of " ∧ returned ")()" = ")()" := ⟨rfl, rfl⟩
  cases qualifier with
  | none =>
    cases language <;>
      simp only [Language.invocation, returned_append, htypeName, hmethod, hpoint, hsharp, hbasic]
  | some q =>
    have hq := returned_eq_self_of_unmarked (hqualifier q rfl)
    cases language <;>
      simp only [Language.invocation, returned_append, htypeName, hmethod, hpoint, hsharp, hbasic,
        hq]

theorem returned_levelText (language : Language) (rank : Nat) :
    returned (language.levelText rank) = language.levelText rank := by
  have hcommas : returned (String.ofList (List.replicate (rank - 1) ',')) =
      String.ofList (List.replicate (rank - 1) ',') := by
    refine returned_eq_self fun hfeed => ?_
    rw [String.toList_ofList] at hfeed
    exact absurd (List.eq_of_mem_replicate hfeed) (by decide)
  unfold Language.levelText
  cases language with
  | csharp =>
    have hopen : returned "[" = "[" := rfl
    have hclose : returned "]" = "]" := rfl
    simp only [returned_append, hcommas, hopen, hclose]
  | visualBasic =>
    have hopen : returned "(" = "(" := rfl
    have hclose : returned ")" = ")" := rfl
    simp only [returned_append, hcommas, hopen, hclose]

theorem returned_levelTexts (language : Language) (levels : List ArrayLevel) :
    returned (String.join (levels.map fun level => language.levelText level.rank)) =
      String.join (levels.map fun level => language.levelText level.rank) := by
  induction levels with
  | nil => rfl
  | cons level levels ih =>
    rw [List.map_cons, String.join_cons, returned_append, returned_levelText, ih]

namespace Document

section Read

variable (language : Language) (path : String) {source : String} (h : '\r' ∉ source.toList)
include h

/-! ## Places -/

theorem exists_sameToken {i : Nat} {l : Lexeme}
    (hl : (lexemes (Lexis.tokenize language.rules source))[i]? = some l) :
    ∃ t t', (read language path source).tokens.toList[i]? = some t ∧
      (read language path (returned source)).tokens.toList[i]? = some t' ∧
      Lexis.SameToken (Text.withReturns source.toList) t t' ∧ t.toLexeme = l := by
  rw [lexemes, List.getElem?_map, Option.map_eq_some_iff] at hl
  obtain ⟨t, ht, rfl⟩ := hl
  obtain ⟨t', ht', hsame⟩ := exists_getElem?_of_forall₂ (Lexis.tokenize_returned language h) ht
  exact ⟨t, t', ht, ht', hsame, rfl⟩

theorem sameOffset_tokenStart {i : Nat} {l : Lexeme}
    (hl : (lexemes (Lexis.tokenize language.rules source))[i]? = some l)
    (hkind : l.kind ≠ .newline) :
    SameOffset source.toList ((read language path source).tokenStart i)
      ((read language path (returned source)).tokenStart i) := by
  obtain ⟨t, t', ht, ht', hsame, rfl⟩ := exists_sameToken language path h hl
  rw [tokenStart_of_getElem? ht, tokenStart_of_getElem? ht']
  exact hsame.sameOffset_start h hkind

theorem sameOffset_tokenStop {i : Nat} {l : Lexeme}
    (hl : (lexemes (Lexis.tokenize language.rules source))[i]? = some l) (hkind : l.kind ≠ .error) :
    SameOffset source.toList ((read language path source).tokenStop i)
      ((read language path (returned source)).tokenStop i) := by
  obtain ⟨t, t', ht, ht', hsame, rfl⟩ := exists_sameToken language path h hl
  rw [tokenStop_of_getElem? ht, tokenStop_of_getElem? ht']
  exact hsame.sameOffset_stop h hkind

/-- Corresponding findings are at the same lines and columns. -/
theorem samePositions_of_findsSame {f f' : Finding}
    (hf : f.site ∈ (read language path source).sites)
    (hsame : FindsSame language.withReturns language.asWritten f f') :
    ((read language path (returned source)).siteSpan f'.site).first =
        ((read language path source).siteSpan f.site).first ∧
      ((read language path (returned source)).siteSpan f'.site).last =
        ((read language path source).siteSpan f.site).last := by
  have hfirst : f'.site.first = f.site.first := (congrArg Site.first hsame.site).symm
  have hlast : f'.site.last = f.site.last := (congrArg Site.last hsame.site).symm
  have hcut := Language.isCutFrom_of_mem_sites hf
  obtain ⟨l, hl, hkind⟩ := hcut.exists_first
  obtain ⟨m, hm, hclose⟩ := hcut.last
  have hstart := sameOffset_tokenStart language path h hl hkind
  have hstop := sameOffset_tokenStop language path h hm
    (by simp [Lexeme.kind_of_closesGroup hclose])
  have htext : (read language path (returned source)).source.toList =
      Text.withReturns source.toList := Text.toList_returned source
  rw [siteSpan, siteSpan, hfirst, hlast, tokenSpan, tokenSpan, byteSpan, byteSpan, htext]
  exact ⟨hstart.positionAt_eq, hstop.positionAt_eq⟩

/-! ## Texts -/

theorem not_mem_feed_of_mem_lexemes {l : Lexeme}
    (hl : l ∈ lexemes (Lexis.tokenize language.rules source)) (herror : l.isError = false)
    (hnewline : l.isNewline = false) (hstr : l.kind ≠ .str) : '\n' ∉ l.text.toList := by
  obtain ⟨i, hi⟩ := List.getElem?_of_mem hl
  obtain ⟨t, t', _, _, hsame, rfl⟩ := exists_sameToken language "" h hi
  exact hsame.not_mem_feed (by simpa [Lexeme.isError] using herror) hstr
    (by simpa [Lexeme.isNewline] using hnewline)

/-- The type argument gets the carriage returns of the text. -/
theorem typeArgument_returned {s s' : Site} {argument argument' : String}
    (hs : s ∈ (read language path source).sites)
    (hs' : s' ∈ (read language path (returned source)).sites)
    (hsite : language.withReturns.site s = language.asWritten.site s')
    (hargument : language.typeArgument? s = some argument)
    (hargument' : language.typeArgument? s' = some argument') : argument' = returned argument := by
  rw [typeArgument?_eq] at hargument hargument'
  split at hargument
  · cases hargument
  · rename_i hwritten
    split at hargument'
    · cases hargument'
    · rename_i hwritten'
      cases hargument
      cases hargument'
      simp only [Bool.or_eq_true, Bool.not_eq_true', not_or,
        Bool.not_eq_false] at hwritten hwritten'
      have hparts := (Language.isCutFrom_of_mem_sites hs).element hwritten.2
      have hparts' := (Language.isCutFrom_of_mem_sites hs').element hwritten'.2
      have hrow : s'.element.parts = language.withReturns.row s.element.parts := by
        rw [← row_asWritten language fun l hl => (hparts' l hl).2.2]
        exact (congrArg (fun s : Site => s.element.parts) hsite).symm
      have hspell : ElementType.spell s'.element.parts =
          returned (ElementType.spell s.element.parts) := by
        rw [hrow]
        refine spell_row_withReturns language fun l hl => ?_
        obtain ⟨hmem, hnewline, herror⟩ := hparts l hl
        exact text_apply_withReturns language herror
          (not_mem_feed_of_mem_lexemes language h hmem herror hnewline)
      rw [returned_append, hspell, levelTexts_eq_of_respelled hsite, returned_levelTexts]

/-! ## Edits -/

theorem sameButReturns_of_fixesSame {factory : Factory} (hfactory : factory.IsUnmarked)
    {f f' : Finding} {e e' : Edit} (he : FixesSame language.withReturns language.asWritten factory
      (read language path source) (read language path (returned source)) f f' e e') :
    Edit.SameButReturns source.toList e e' := by
  have hcut := Language.isCutFrom_of_mem_sites he.mem_sites
  obtain ⟨l, hl, hkind⟩ := hcut.exists_first
  obtain ⟨m, hm, hclose⟩ := hcut.last
  have hpunct := Lexeme.kind_of_closesGroup hclose
  have hlast := sameOffset_tokenStart language path h hm (by simp [hpunct])
  constructor
  case start =>
    rw [he.place.start, he.place'.start, Site.editPlace]
    split
    · exact hlast
    · exact sameOffset_tokenStart language path h hl hkind
  case stop =>
    rw [he.place.stop, he.place'.stop, Site.editPlace]
    split
    · exact hlast
    · exact sameOffset_tokenStop language path h hm (by simp [hpunct])
  case replacement =>
    have hshort : (read language path (returned source)).usesShortForm factory =
        (read language path source).usesShortForm factory :=
      importsNamespace_eq_of_respelled language path path (row_lexemes_returned language h)
        (.inl hfactory.namespaceName)
    have hargument := typeArgument_returned language path h he.mem_sites he.mem_sites'
      he.findings.site he.typeArgument he.typeArgument'
    have hseparator : returned f.site.origin.separator = f.site.origin.separator := by
      unfold Origin.separator
      split <;> rfl
    rw [he.replacement, he.replacement', returned_append, hseparator, replacement, replacement,
      hshort, hargument]
    refine congrArg _ (returned_invocation language hfactory ?_ _).symm
    split
    · rintro q hq
      cases hq
    · rintro q hq
      cases hq
      exact hfactory.namespaceName

/-- Corresponding findings have corresponding edits. -/
theorem edits_returned {policy : Policy} {factory : Factory} (hfactory : factory.IsUnmarked)
    {fs fs' : List Finding}
    (hfs : List.Forall₂ (fun f f' => f ∈ (read language path source).findings policy ∧
      f' ∈ (read language path (returned source)).findings policy ∧
      FindsSame language.withReturns language.asWritten f f') fs fs') :
    List.Forall₂ (Edit.SameButReturns source.toList)
      ((read language path source).edits factory fs)
      ((read language path (returned source)).edits factory fs') :=
  (edits_forall₂_of_respelled language path path hfs).imp fun _ _ ⟨_, _, he⟩ =>
    sameButReturns_of_fixesSame language path h hfactory he

end Read

end Document

end ZeroAlloc
