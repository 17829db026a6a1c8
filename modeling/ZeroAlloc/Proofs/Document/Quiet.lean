import Mathlib.Data.List.Infix
import ZeroAlloc.Proofs.Compilation.Keys
import ZeroAlloc.Proofs.Document.Behind
import ZeroAlloc.Proofs.Document.Expressions
import ZeroAlloc.Proofs.Lexis.Apart
set_option autoImplicit false

/-! # Texts with nothing to report

A row of lexemes is quiet if it writes down no allocation that is flagged, whatever the constants
are and whatever name follows the row. Quiet rows stay quiet one behind the other
(`Language.IsQuiet.append`), so texts that stand apart from the names behind them make a quiet text
(`Language.isQuiet_flatten`). A document with a quiet text has no findings as long as arrays that
the compiler makes are passed over (`Document.findings_eq_nil`). -/

namespace ZeroAlloc

/-! ## Creation expressions -/

theorem Site.decision_of_markAttribute {s : Site} {sections : List (Nat × Nat)}
    {language : Language} {constants : Constants} {policy : Policy}
    (h : (s.markAttribute sections).decision language constants policy = .flag) :
    s.decision language constants policy = .flag := by
  unfold markAttribute at h
  split at h
  · cases h
  · exact h

namespace Language

variable {language : Language} {ls more : List Lexeme}

/-- The creation expression that the row starts with. -/
def creation? : Language → List Lexeme → Option Site
  | csharp => CSharp.creation?
  | visualBasic => VisualBasic.creation?

/-- A creation expression among the sites of a row starts a final part of the row. -/
theorem exists_creation_of_mem_sites {s : Site} (h : s ∈ language.sites ls)
    (horigin : s.origin = .explicit) :
    ∃ passed here found sections, ls = passed ++ here ∧ language.creation? here = some found ∧
      s = (found.shift passed.length).markAttribute sections := by
  cases language with
  | csharp =>
    obtain ⟨passed, here, hrow, found, hfound, rfl⟩ := exists_found_of_mem_collected h
    rw [Site.origin_markAttribute, Site.origin_shift] at horigin
    simp only [List.mem_append, Option.mem_toList] at hfound
    rcases hfound with (hfound | hfound) | hfound
    · exact ⟨passed, here, found, _, hrow, hfound, rfl⟩
    · obtain ⟨_, _, _, _, -, -, -, hlist⟩ := CSharp.exists_isListOn_of_mem_declarationSites hfound
      cases hlist
      cases horigin
    · obtain ⟨_, -, _, _, _, _, -, -, -, rfl⟩ := CSharp.exists_callSite_of_paramArrayCall hfound
      cases horigin
  | visualBasic =>
    obtain ⟨passed, here, hrow, found, hfound, rfl⟩ := exists_found_of_mem_collected h
    rw [Site.origin_markAttribute, Site.origin_shift] at horigin
    simp only [List.mem_append, Option.mem_toList] at hfound
    rcases hfound with (hfound | hfound) | hfound
    · exact ⟨passed, here, found, _, hrow, hfound, rfl⟩
    · obtain ⟨_, _, _, _, _, -, -, -, -, hlist⟩ :=
        VisualBasic.exists_isListOn_of_declarationSite hfound
      cases hlist
      cases horigin
    · obtain ⟨_, -, _, _, _, _, -, -, -, rfl⟩ :=
        VisualBasic.exists_callSite_of_paramArrayCall hfound
      cases horigin

/-- Without the word for it, no creation expression starts. -/
theorem creation?_eq_none {l : Lexeme} (h : language.isNew l = false) (ls : List Lexeme) :
    language.creation? (l :: ls) = none := by
  cases language with
  | csharp => exact if_neg (Bool.not_eq_true _ ▸ h)
  | visualBasic => exact if_neg (Bool.not_eq_true _ ▸ h)

/-! ## Empty lists -/

/-- Whether the row starts with an equals sign and an initializer list without contents, with
nothing but line breaks within. -/
def assignsEmptyList (language : Language) (ls : List Lexeme) : Bool :=
  let list := ls.tail.dropWhile Lexeme.isNewline
  startsWithPunct "=" ls && language.listBrackets.any fun b =>
    startsWithPunct b.opening list &&
      startsWithPunct b.closing (list.tail.dropWhile Lexeme.isNewline)

theorem startsWithPunct_append {p : String} (hmore : startsWithIdent more = true)
    (ls : List Lexeme) : startsWithPunct p (ls ++ more) = startsWithPunct p ls := by
  cases ls with
  | cons l ls => rfl
  | nil =>
    cases more with
    | nil => rfl
    | cons l more =>
      have hident : l.kind = .ident := of_decide_eq_true hmore
      simp [startsWithPunct, Lexeme.isPunct, hident]

theorem dropWhile_isNewline_append (hmore : startsWithIdent more = true) (ls : List Lexeme) :
    (ls ++ more).dropWhile Lexeme.isNewline = ls.dropWhile Lexeme.isNewline ++ more := by
  rw [List.dropWhile_append]
  split
  · rename_i hnil
    rw [List.isEmpty_iff.1 hnil, List.nil_append]
    cases more with
    | nil => rfl
    | cons l more =>
      have hident : l.kind = .ident := of_decide_eq_true hmore
      exact List.dropWhile_cons_of_neg (by simp [Lexeme.isNewline, hident])
  · rfl

/-- What passes a test from one place up to another, but not there, is passed over. -/
theorem dropWhile_drop {p : Lexeme → Bool} {i j : Nat} (hle : i ≤ j)
    (hbetween : ∀ k l, i ≤ k → k < j → ls[k]? = some l → p l = true)
    (hj : ∃ l, ls[j]? = some l ∧ p l = false) : (ls.drop i).dropWhile p = ls.drop j := by
  obtain ⟨l, hl, hpl⟩ := hj
  obtain ⟨hlength, hget⟩ := List.getElem?_eq_some_iff.1 hl
  induction hn : j - i generalizing i with
  | zero =>
    obtain rfl : i = j := by omega
    rw [List.drop_eq_getElem_cons hlength, hget, List.dropWhile_cons_of_neg (by simp [hpl])]
  | succ n ih =>
    have hi : i < ls.length := by omega
    have hpass := hbetween i ls[i] (Nat.le_refl i) (by omega) (List.getElem?_eq_getElem hi)
    rw [List.drop_eq_getElem_cons hi, List.dropWhile_cons_of_pos hpass]
    exact ih (by omega) (fun k l hk => hbetween k l (by omega)) (by omega)

theorem startsWithPunct_drop {p : String} {k : Nat}
    (h : ∃ l, ls[k]? = some l ∧ l.isPunct p = true) : startsWithPunct p (ls.drop k) = true := by
  obtain ⟨l, hl, hp⟩ := h
  rw [startsWithPunct, List.head?_drop, hl]
  exact hp

theorem isNewline_of_exists_isPunct {p : String} {k : Nat}
    (h : ∃ l, ls[k]? = some l ∧ l.isPunct p = true) :
    ∃ l, ls[k]? = some l ∧ l.isNewline = false := by
  obtain ⟨l, hl, hp⟩ := h
  have hkind : l.kind = .punct := by simp_all [Lexeme.isPunct]
  exact ⟨l, hl, by simp [Lexeme.isNewline, hkind]⟩

/-- Brackets behind an equals sign, with nothing but line breaks in front of each, are an empty list
that is assigned. -/
theorem assignsEmptyList_drop {b : BracketPair} (hb : b ∈ language.listBrackets) {first last : Nat}
    (hassigned : IsAssigned ls first) (hcloses : b.Closes ls first last)
    (hinside : ∀ k l, first < k → k < last → ls[k]? = some l → l.isNewline = true) :
    ∃ mark, language.assignsEmptyList (ls.drop mark) = true := by
  obtain ⟨mark, hmark, hequals, hbefore⟩ := hassigned
  have hopening := hcloses.exists_opening
  have hclosing := hcloses.exists_closing
  have hlist : (ls.drop (mark + 1)).dropWhile Lexeme.isNewline = ls.drop first :=
    dropWhile_drop hmark (fun k l hk => hbefore k l hk) (isNewline_of_exists_isPunct hopening)
  have hrest : (ls.drop (first + 1)).dropWhile Lexeme.isNewline = ls.drop last :=
    dropWhile_drop hcloses.lt (fun k l hk => hinside k l hk) (isNewline_of_exists_isPunct hclosing)
  refine ⟨mark, ?_⟩
  rw [assignsEmptyList, List.tail_drop, hlist, List.tail_drop, hrest, startsWithPunct_drop hequals,
    Bool.true_and]
  refine List.any_eq_true.2 ⟨b, hb, ?_⟩
  rw [startsWithPunct_drop hopening, startsWithPunct_drop hclosing]
  rfl

/-- No list goes on in a row that starts with a name. -/
theorem assignsEmptyList_append (hmore : startsWithIdent more = true) (ls : List Lexeme) :
    language.assignsEmptyList (ls ++ more) = language.assignsEmptyList ls := by
  rw [assignsEmptyList, assignsEmptyList, startsWithPunct_append hmore]
  cases ls with
  | nil => rfl
  | cons mark value =>
    rw [List.cons_append, List.tail_cons, List.tail_cons, dropWhile_isNewline_append hmore]
    cases value.dropWhile Lexeme.isNewline with
    | nil =>
      have hnone (p : String) : startsWithPunct p ([] ++ more) = false :=
        startsWithPunct_append hmore []
      have hnil (p : String) : startsWithPunct p [] = false := rfl
      simp only [hnone, hnil, Bool.false_and]
    | cons opening inside =>
      rw [List.cons_append, List.tail_cons, List.tail_cons, dropWhile_isNewline_append hmore]
      simp only [startsWithPunct_append hmore, startsWithPunct_cons]

/-! ## Quiet rows -/

/-- No creation expression that starts in the row is flagged, whatever the constants are and
whatever follows the row, if that starts with a name, and no empty list is assigned in the row. -/
structure IsQuiet (language : Language) (ls : List Lexeme) : Prop where
  creations : ∀ here, here <:+ ls → here ≠ [] → ∀ behind, behind = [] ∨ startsWithIdent behind →
    ∀ s, language.creation? (here ++ behind) = some s →
      ∀ constants policy, s.decision language constants policy ≠ .flag
  lists : ∀ here, here <:+ ls → language.assignsEmptyList here = false

/-- A row is quiet if no creation expression starts in it and no empty list is assigned. -/
theorem isQuiet_of_forall (hnew : ∀ l ∈ ls, language.isNew l = false)
    (hlists : ∀ here ∈ ls.tails, language.assignsEmptyList here = false) : language.IsQuiet ls where
  creations here hhere hne behind _ s hs := by
    obtain ⟨l, rest, rfl⟩ := List.exists_cons_of_ne_nil hne
    have hnone := creation?_eq_none (hnew l (hhere.mem List.mem_cons_self)) (rest ++ behind)
    cases hnone.symm.trans hs
  lists here hhere := hlists here ((List.mem_tails here ls).2 hhere)

/-- A final part of two rows is one of the second row, or has all of it. -/
theorem suffix_append_cases {here : List Lexeme} (h : here <:+ ls ++ more) :
    (∃ part, part <:+ ls ∧ here = part ++ more) ∨ here <:+ more := by
  obtain ⟨front, hfront⟩ := h
  rcases List.append_eq_append_iff.1 hfront with ⟨mid, hls, hhere⟩ | ⟨mid, -, hmore⟩
  · exact .inl ⟨mid, ⟨front, hls.symm⟩, hhere⟩
  · exact .inr ⟨mid, hmore.symm⟩

theorem IsQuiet.append (h : language.IsQuiet ls) (hmore : language.IsQuiet more)
    (hident : startsWithIdent more = true) : language.IsQuiet (ls ++ more) where
  creations here hhere hne behind hbehind s hs := by
    rcases suffix_append_cases hhere with ⟨part, hpart, rfl⟩ | hhere
    · by_cases hnil : part = []
      · subst hnil
        exact hmore.creations more List.suffix_rfl hne behind hbehind s hs
      · rw [List.append_assoc] at hs
        refine h.creations part hpart hnil (more ++ behind) (.inr ?_) s hs
        cases more with
        | nil => cases hident
        | cons l more => exact hident
    · exact hmore.creations here hhere hne behind hbehind s hs
  lists here hhere := by
    rcases suffix_append_cases hhere with ⟨part, hpart, rfl⟩ | hhere
    · rw [assignsEmptyList_append hident]
      exact h.lists part hpart
    · exact hmore.lists here hhere

/-! ## Quiet texts -/

/-- The text starts with a name, which is a lexeme whatever follows the text. -/
structure OpensWithName (language : Language) (cs : List Char) : Prop where
  startsWithName : Lexis.StartsWithName cs
  ident : ∀ more, startsWithIdent (language.row (cs ++ more)) = true

/-- A call of the factory opens with its first name, if the names are read as such. -/
theorem opensWithName_invocation {config : Config} (hconfig : config.error? = none)
    {qualified : Bool} (h : ∀ part ∈ config.factory.nameParts qualified, language.ReadsName part)
    (argument : String) (rest : List Char) : language.OpensWithName
      ((language.invocation (config.factory.qualifier? qualified) config.factory argument).toList ++
        rest) := by
  have hparts : ∀ part ∈ config.factory.nameParts qualified, isIdentifier part = true :=
    config.isIdentifier_of_mem_nameParts hconfig
  rw [toList_invocation]
  generalize hall : config.factory.nameParts qualified = parts at h hparts
  have hne : parts ≠ [] :=
    hall ▸ List.append_ne_nil_of_right_ne_nil _ (List.cons_ne_nil _ _)
  refine ⟨?_, fun more => ?_⟩
  · obtain ⟨part, later, rfl⟩ := List.exists_cons_of_ne_nil hne
    obtain ⟨⟨c, tail, rfl, hc, -⟩, -⟩ := h part List.mem_cons_self
    cases later <;> exact ⟨c, _, rfl, hc⟩
  · have hrow := Lexis.lexemes_of_forall_readsName hne hparts h
      (language.argumentText argument ++ rest ++ more)
    rw [List.append_assoc, List.append_assoc, List.cons_append, ← List.append_assoc, row, hrow]
    obtain ⟨part, later, rfl⟩ := List.exists_cons_of_ne_nil hne
    cases later <;> rfl

/-- Each of the texts is quiet, and all but the last one keep their lexemes in front of a name. -/
structure AreQuiet (language : Language) (texts : List (List Char)) : Prop where
  apart : ∀ text ∈ texts.dropLast, language.StandsApart text
  quiet : ∀ text ∈ texts, language.IsQuiet (language.row text)

/-- Quiet texts of which each but the first starts with a name are quiet one behind the other. -/
theorem isQuiet_flatten {texts : List (List Char)} (h : language.AreQuiet texts)
    (hnames : ∀ text ∈ texts.tail, language.OpensWithName text) :
    language.IsQuiet (language.row texts.flatten) := by
  induction texts with
  | nil =>
    rw [List.flatten_nil, row_nil]
    exact isQuiet_of_forall (List.forall_mem_nil _) (List.forall_mem_singleton.2 rfl)
  | cons text texts ih =>
    cases texts with
    | nil =>
      rw [List.flatten_cons, List.flatten_nil, List.append_nil]
      exact h.quiet text List.mem_cons_self
    | cons next texts =>
      obtain ⟨hquiet, hmore⟩ := List.forall_mem_cons.1 h.quiet
      obtain ⟨hapart, hlater⟩ := List.forall_mem_cons.1 h.apart
      have hnext := hnames next List.mem_cons_self
      obtain ⟨c, rest, rfl, hc⟩ := hnext.startsWithName
      have hstarts : Lexis.StartsWithName (((c :: rest) :: texts).flatten) :=
        ⟨c, rest ++ texts.flatten, rfl, hc⟩
      rw [List.flatten_cons, row_append hapart hstarts]
      exact hquiet.append
        (ih ⟨hlater, hmore⟩ fun _ hmem => hnames _ (List.mem_cons_of_mem _ hmem))
        (hnext.ident texts.flatten)

end Language

namespace Document

variable {language : Language} {path source : String} {policy : Policy}

theorem lexemes_read (language : Language) (path source : String) :
    lexemes (read language path source).tokens.toList = language.row source.toList := by
  rw [read, List.toList_toArray]
  rfl

/-- A quiet text has no findings as long as arrays that the compiler makes are passed over. -/
theorem findings_eq_nil (hskip : policy.compilerGenerated = .skip)
    (h : language.IsQuiet (language.row source.toList)) :
    (read language path source).findings policy = [] := by
  refine List.eq_nil_iff_forall_not_mem.2 fun finding hfinding => ?_
  have hwritten := isCompilerGenerated_of_mem_findings hskip hfinding
  obtain ⟨hs, hflag, -⟩ := of_mem_findings hfinding
  rw [← lexemes_read language path source] at h
  cases horigin : finding.site.origin with
  | explicit =>
    obtain ⟨passed, here, found, sections, hrow, hfound, hsite⟩ :=
      Language.exists_creation_of_mem_sites hs horigin
    rw [hsite] at hflag
    have hdecision := Site.decision_of_markAttribute hflag
    rw [Site.decision_shift] at hdecision
    have hne : here ≠ [] := by
      rintro rfl
      cases language <;> cases hfound
    have hsuffix : here <:+ lexemes (read language path source).tokens.toList :=
      ⟨passed, hrow.symm⟩
    refine h.creations here hsuffix hne [] (.inl rfl) found ?_ _ _ hdecision
    rwa [List.append_nil]
  | implicitInitializer =>
    obtain ⟨⟨b, hb, hcloses⟩, hassigned⟩ := (isWhole_of_mem_sites hs).implicit horigin
    obtain ⟨mark, hmark⟩ := Language.assignsEmptyList_drop hb hassigned hcloses
      fun k l hfirst hlast hl => by
        obtain ⟨t, ht, rfl⟩ := exists_token_of_getElem? hl
        exact isNewline_of_implicit hs horigin hflag hfirst hlast ht
    rw [h.lists _ (List.drop_suffix mark _)] at hmark
    cases hmark
  | paramArray needsSeparator =>
    rw [horigin] at hwritten
    cases hwritten

end Document

end ZeroAlloc
