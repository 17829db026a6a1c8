import ZeroAlloc.Proofs.Decision.Elements
import ZeroAlloc.Proofs.Document.Places
import ZeroAlloc.Proofs.Indexed.Row
set_option autoImplicit false

/-! # What findings cover

The span of a finding is one whole expression (`isWholeExpression_of_mem_findings`). It ends with
the bracket that closes a group within it, so no bracket is left behind when the expression gives
way to another one. An expression that the source writes down starts where the source starts it, and
nothing in it is malformed. -/

namespace ZeroAlloc

/-! ## Expressions of a language -/

namespace Language

/-- Whether a lexeme is the word that starts a creation expression. -/
def isNew : Language → Lexeme → Bool
  | csharp => CSharp.isNew
  | visualBasic => VisualBasic.isNew

/-- The brackets of initializer lists and at the end of creation expressions. -/
def listBrackets : Language → List BracketPair
  | csharp => CSharp.listBrackets
  | visualBasic => [.braces]

/-- The brackets at the end of a site. -/
def endBrackets (language : Language) : Origin → List BracketPair
  | .explicit => language.listBrackets
  | .implicitInitializer => language.listBrackets
  | .paramArray _ => [.parens]

theorem isWhole_of_mem_sites {language : Language} {ls : List Lexeme} {s : Site}
    (h : s ∈ language.sites ls) : s.IsWhole language.isNew language.listBrackets ls := by
  cases language with
  | csharp => exact CSharp.isWhole_of_mem_sites h
  | visualBasic => exact VisualBasic.isWhole_of_mem_sites h

/-- The last lexeme of a site closes a bracket of the site. -/
theorem exists_closes_of_mem_sites {language : Language} {ls : List Lexeme} {s : Site}
    (h : s ∈ language.sites ls) :
    ∃ b ∈ language.endBrackets s.origin, ∃ opening, s.first ≤ opening ∧
      b.Closes ls opening s.last := by
  have hwhole := isWhole_of_mem_sites h
  cases horigin : s.origin with
  | explicit =>
    obtain ⟨-, b, hb, opening, hfirst, hcloses⟩ := hwhole.explicit horigin
    exact ⟨b, hb, opening, Nat.le_of_lt hfirst, hcloses⟩
  | implicitInitializer =>
    obtain ⟨⟨b, hb, hcloses⟩, -⟩ := hwhole.implicit horigin
    exact ⟨b, hb, s.first, Nat.le_refl _, hcloses⟩
  | paramArray needsSeparator =>
    have hcloses := (liesIn_of_mem_sites h).closes (by rw [horigin]; rfl)
    exact ⟨.parens, List.mem_singleton_self _, s.first + 1, Nat.le_succ _, hcloses⟩

end Language

/-- An initializer list on a declared array is flagged only if it has no contents. -/
theorem Site.exists_initializer_of_implicit {s : Site} {language : Language} {constants : Constants}
    {policy : Policy} (hproper : s.IsProper) (horigin : s.origin = .implicitInitializer)
    (h : s.decision language constants policy = .flag) :
    ∃ i, s.initializer = some i ∧ i.opening = s.first ∧ i.contents = [] := by
  obtain ⟨⟨i, hi, hopening⟩, hsizes⟩ := hproper.implicit horigin
  rcases size_or_initializer_of_flag h with ⟨size, hsize, -⟩ | ⟨j, hj, hcontents⟩
  · -- the type of the declaration has no sizes
    have hnone := hsizes s.allocated List.mem_cons_self
    rw [ArrayLevel.hasSizes, List.any_eq_false] at hnone
    exact absurd rfl (hnone (some size) (List.mem_of_head? hsize))
  · obtain rfl : i = j := Option.some.inj (hi.symm.trans hj)
    exact ⟨i, hi, hopening, hcontents⟩

/-! ## Expressions in a document -/

namespace Document

/-- The tokens with the two indices are the brackets of a group: the search for the bracket that
closes the first one ends at the second one. -/
structure HasGroup (doc : Document) (b : BracketPair) (opening close : Nat) : Prop where
  opens : ∃ t, doc.tokens[opening]? = some t ∧ t.isPunct b.opening = true
  closes : ∃ t, doc.tokens[close]? = some t ∧ t.isPunct b.closing = true
  found : Indexed.matchingClose b (lexemes doc.tokens.toList) opening = .done close

section Lexemes

variable {doc : Document} {k : Nat}

theorem getElem?_lexemes {t : Token} (h : doc.tokens[k]? = some t) :
    (lexemes doc.tokens.toList)[k]? = some t.toLexeme := by
  rw [lexemes_getElem?, h]
  rfl

/-- What holds of the lexeme with an index holds of the token with the index. -/
theorem exists_token_of_exists_lexeme {p : Lexeme → Bool}
    (h : ∃ l, (lexemes doc.tokens.toList)[k]? = some l ∧ p l = true) :
    ∃ t, doc.tokens[k]? = some t ∧ p t.toLexeme = true := by
  obtain ⟨l, hl, hp⟩ := h
  obtain ⟨t, ht, rfl⟩ := exists_token_of_getElem? hl
  exact ⟨t, ht, hp⟩

theorem hasGroup_of_closes {b : BracketPair} {opening close : Nat}
    (h : b.Closes (lexemes doc.tokens.toList) opening close) : doc.HasGroup b opening close where
  opens := exists_token_of_exists_lexeme h.exists_opening
  closes := exists_token_of_exists_lexeme h.exists_closing
  found := by
    obtain ⟨inside, rest, hgroup, rfl⟩ := h
    rw [Indexed.matchingClose_eq (startsWithPunct_of_group hgroup), hgroup]
    rfl

end Lexemes

/-- The span of the site is one whole expression of the source. -/
structure IsWholeExpression (doc : Document) (s : Site) : Prop where
  /-- The span starts with a token and ends with one. -/
  start : (doc.tokens[s.first]?).map Token.start = some (doc.siteSpan s).start
  stop : (doc.tokens[s.last]?).map Token.stop = some (doc.siteSpan s).stop
  /-- The tokens in between are those that lie in the span. -/
  tokens : ∀ k t, doc.tokens[k]? = some t →
    ((doc.siteSpan s).start ≤ t.start ∧ t.stop ≤ (doc.siteSpan s).stop ↔
      s.first ≤ k ∧ k ≤ s.last)
  /-- The last token closes a bracket of the span. -/
  closed : ∃ b ∈ doc.language.endBrackets s.origin, ∃ opening, s.first ≤ opening ∧
    opening < s.last ∧ doc.HasGroup b opening s.last
  /-- A creation expression starts with the word for it. -/
  explicit : s.origin = .explicit →
    ∃ t, doc.tokens[s.first]? = some t ∧ doc.language.isNew t.toLexeme = true
  /-- An initializer list is a pair of brackets around nothing but line breaks, behind an equals
  sign. -/
  implicit : s.origin = .implicitInitializer →
    (∃ b ∈ doc.language.listBrackets, doc.HasGroup b s.first s.last) ∧
    (∀ k t, s.first < k → k < s.last → doc.tokens[k]? = some t → t.isNewline = true) ∧
    ∃ mark < s.first, (∃ t, doc.tokens[mark]? = some t ∧ t.isPunct "=" = true) ∧
      ∀ k t, mark < k → k < s.first → doc.tokens[k]? = some t → t.isNewline = true
  /-- A call is a name with its argument list. -/
  call : s.origin.isCompilerGenerated = true → doc.HasGroup .parens (s.first + 1) s.last
  /-- Nothing in a written expression is malformed. -/
  sound : s.origin.isCompilerGenerated = false →
    ∀ k t, s.first ≤ k → k ≤ s.last → doc.tokens[k]? = some t → t.isError = false

section Read

variable {language : Language} {path source : String} {s : Site}

theorem isWhole_of_mem_sites (h : s ∈ (read language path source).sites) :
    s.IsWhole language.isNew language.listBrackets
      (lexemes (read language path source).tokens.toList) :=
  Language.isWhole_of_mem_sites h

/-- A token lies in the span of a range of tokens exactly if it is one of them. -/
theorem mem_tokenSpan_iff {first last k : Nat} {t : Token} (hfirst : first ≤ last)
    (hlast : last < (read language path source).tokens.size)
    (ht : (read language path source).tokens[k]? = some t) :
    (((read language path source).tokenSpan first last).start ≤ t.start ∧
      t.stop ≤ ((read language path source).tokenSpan first last).stop) ↔
      first ≤ k ∧ k ≤ last := by
  have hk : k < (read language path source).tokens.size := (Array.getElem?_eq_some_iff.1 ht).1
  have hrow : (read language path source).tokens.toList[k]? = some t := by
    rw [Array.getElem?_toList, ht]
  change (read language path source).tokenStart first ≤ t.start ∧
    t.stop ≤ (read language path source).tokenStop last ↔ _
  rw [← tokenStart_of_getElem? hrow, ← tokenStop_of_getElem? hrow]
  have hbefore := tokenStart_lt_tokenStart_iff hk (Nat.lt_of_le_of_lt hfirst hlast)
  have hself := tokenStart_lt_tokenStop_iff hk hk
  have hbehind := tokenStart_lt_tokenStop_iff hk hlast
  constructor
  · rintro ⟨hstart, hstop⟩
    omega
  · rintro ⟨hle, hge⟩
    exact ⟨by omega, tokenStop_le hge (by rwa [Array.length_toList])⟩

/-- In an initializer list on a declared array that is flagged stand line breaks only. -/
theorem isNewline_of_implicit {policy : Policy} (hs : s ∈ (read language path source).sites)
    (horigin : s.origin = .implicitInitializer)
    (hflag : s.decision language (read language path source).constants policy = .flag)
    {k : Nat} {t : Token} (hfirst : s.first < k) (hlast : k < s.last)
    (ht : (read language path source).tokens[k]? = some t) : t.isNewline = true := by
  obtain ⟨i, hi, hopening, hcontents⟩ :=
    Site.exists_initializer_of_implicit (isProper_of_mem_sites hs) horigin hflag
  have hstands := (isWrittenIn_of_mem_sites hs).initializer (by rw [horigin]; rfl) i hi
  refine (hstands.mem_or_isNewline (by omega) hlast (getElem?_lexemes ht)).resolve_left ?_
  rw [hcontents]
  exact List.not_mem_nil

/-- The span of a finding is one whole expression of the source. -/
theorem isWholeExpression_of_mem_findings {policy : Policy} {finding : Finding}
    (h : finding ∈ (read language path source).findings policy) :
    (read language path source).IsWholeExpression finding.site := by
  obtain ⟨hs, hflag, -⟩ := of_mem_findings h
  have hlies := Language.liesIn_of_mem_sites hs
  have hwhole := isWhole_of_mem_sites hs
  have hlast : finding.site.last < (read language path source).tokens.toList.length :=
    last_lt_length_of_mem_sites hs
  have hfirst := Nat.lt_of_le_of_lt hlies.first_le_last hlast
  constructor
  case start =>
    rw [← Array.getElem?_toList, List.getElem?_eq_getElem hfirst]
    exact congrArg some (tokenStart_of_getElem? (List.getElem?_eq_getElem hfirst)).symm
  case stop =>
    rw [← Array.getElem?_toList, List.getElem?_eq_getElem hlast]
    exact congrArg some (tokenStop_of_getElem? (List.getElem?_eq_getElem hlast)).symm
  case tokens =>
    intro k t ht
    exact mem_tokenSpan_iff hlies.first_le_last hlast ht
  case closed =>
    obtain ⟨b, hb, opening, hopening, hcloses⟩ := Language.exists_closes_of_mem_sites hs
    exact ⟨b, hb, opening, hopening, hcloses.lt, hasGroup_of_closes hcloses⟩
  case explicit =>
    intro horigin
    exact exists_token_of_exists_lexeme (hwhole.explicit horigin).1
  case implicit =>
    intro horigin
    obtain ⟨⟨b, hb, hcloses⟩, mark, hmark, hequals, hlines⟩ := hwhole.implicit horigin
    refine ⟨⟨b, hb, hasGroup_of_closes hcloses⟩, fun k t hafter hbefore ht => ?_, mark, hmark,
      exists_token_of_exists_lexeme hequals, fun k t hafter hbefore ht => ?_⟩
    · exact isNewline_of_implicit hs horigin hflag hafter hbefore ht
    · exact hlines k _ hafter hbefore (getElem?_lexemes ht)
  case call =>
    intro hgenerated
    exact hasGroup_of_closes (hlies.closes hgenerated)
  case sound =>
    intro hwritten k t hfirst hlast ht
    exact hwhole.sound hwritten (Site.resolved_of_flag hflag) k _ hfirst hlast (getElem?_lexemes ht)

end Read

/-- A declaration whose initializer list has no elements. -/
def brokenLines : Document :=
  read .visualBasic "a.vb" "Dim a As Byte() =\n\x7b\n\x7d"

theorem isWholeExpression_brokenLines :
    ∃ finding ∈ brokenLines.findings (Config.standard.policy true),
      finding.site.origin = .implicitInitializer ∧ finding.site.first = 8 ∧
        finding.site.last = 10 ∧ brokenLines.IsWholeExpression finding.site := by
  obtain ⟨finding, h, hsite⟩ : ∃ finding ∈ brokenLines.findings (Config.standard.policy true),
      finding.site.origin = .implicitInitializer ∧ finding.site.first = 8 ∧
        finding.site.last = 10 := by decide +kernel
  exact ⟨finding, h, hsite.1, hsite.2.1, hsite.2.2, isWholeExpression_of_mem_findings h⟩

end Document

end ZeroAlloc
