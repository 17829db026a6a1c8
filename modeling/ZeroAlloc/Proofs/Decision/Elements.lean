import ZeroAlloc.Proofs.CSharp.Written
import ZeroAlloc.Proofs.Decision.Evidence
import ZeroAlloc.Proofs.Document.WellFormed
import ZeroAlloc.Proofs.SizeExpr.Relocation
import ZeroAlloc.Proofs.VisualBasic.Written
set_option autoImplicit false

/-! # The elements of flagged sites

A fix removes a flagged site with its initializer list. Without a size in front of it, a list of a
flagged site holds nothing but line breaks (`hasEmptyList_of_flag`). A size counts before the list,
though, and one that is zero lets a list with elements pass (`not_forall_contents_eq_nil`). -/

namespace ZeroAlloc

theorem Language.isWrittenIn_of_mem_sites {language : Language} {ls : List Lexeme} {s : Site}
    (h : s ∈ language.sites ls) : s.IsWrittenIn ls := by
  cases language with
  | csharp => exact CSharp.isWrittenIn_of_mem_sites h
  | visualBasic => exact VisualBasic.isWrittenIn_of_mem_sites h

theorem Document.isWrittenIn_of_mem_sites {language : Language} {path source : String} {s : Site}
    (h : s ∈ (read language path source).sites) :
    s.IsWrittenIn (lexemes (read language path source).tokens.toList) :=
  Language.isWrittenIn_of_mem_sites h

/-! ## Sizes and lists -/

/-- The source gives a size for the allocated level, and the size is the constant zero. -/
def Site.GivesZero (s : Site) (doc : Document) : Prop :=
  ∃ size, s.allocated.sizes.head? = some (some size) ∧
    doc.language.length? doc.constants size = some 0

/-- The site ends with a list in which nothing but line breaks stands. -/
def Document.HasEmptyList (doc : Document) (s : Site) : Prop :=
  ∃ i, s.initializer = some i ∧ i.contents = [] ∧ i.opening < s.last ∧
    (∃ opening close, doc.tokens[i.opening]? = some opening ∧ doc.tokens[s.last]? = some close ∧
      opening.opensGroup = true ∧ close.closesGroup = true) ∧
    ∀ (k : Nat) (t : Token), i.opening < k → k < s.last → doc.tokens[k]? = some t →
      t.isNewline = true

namespace Document

variable {language : Language} {path source : String} {s : Site}

theorem lexemes_getElem? {doc : Document} (k : Nat) :
    (lexemes doc.tokens.toList)[k]? = doc.tokens[k]?.map Token.toLexeme := by
  rw [lexemes, List.getElem?_map, Array.getElem?_toList]

theorem exists_token_of_getElem? {doc : Document} {k : Nat} {l : Lexeme}
    (h : (lexemes doc.tokens.toList)[k]? = some l) :
    ∃ t, doc.tokens[k]? = some t ∧ t.toLexeme = l := by
  rw [lexemes_getElem?] at h
  exact Option.map_eq_some_iff.1 h

/-- A list without contents that stands in the file is empty. -/
theorem hasEmptyList_of_standsIn {doc : Document} {i : Initializer}
    (hi : s.initializer = some i) (hcontents : i.contents = [])
    (h : i.StandsIn (lexemes doc.tokens.toList) s.last) : doc.HasEmptyList s := by
  have hbetween : ∀ (k : Nat) (t : Token), i.opening < k → k < s.last →
      doc.tokens[k]? = some t → t.isNewline = true := by
    intro k t hopening hlast ht
    have hl : (lexemes doc.tokens.toList)[k]? = some t.toLexeme := by rw [lexemes_getElem?, ht]; rfl
    refine (h.mem_or_isNewline hopening hlast hl).resolve_left ?_
    rw [hcontents]
    exact List.not_mem_nil
  obtain ⟨opening, inside, close, rest, hdrop, hlast, hopens, hcloses, -⟩ := h
  have hfirst : (lexemes doc.tokens.toList)[i.opening]? = some opening := by
    rw [← Nat.add_zero i.opening, ← List.getElem?_drop, hdrop]
    rfl
  have hend : (lexemes doc.tokens.toList)[s.last]? = some close := by
    rw [hlast, Nat.add_assoc, ← List.getElem?_drop, hdrop, List.getElem?_cons_succ,
      List.getElem?_append_right (Nat.le_refl _), Nat.sub_self]
    rfl
  obtain ⟨t, ht, rfl⟩ := exists_token_of_getElem? hfirst
  obtain ⟨u, hu, rfl⟩ := exists_token_of_getElem? hend
  exact ⟨i, hi, hcontents, by omega, ⟨t, u, ht, hu, hopens, hcloses⟩, hbetween⟩

/-- A fix loses no elements unless a size of zero contradicts them: a written site that is flagged
without such a size ends with an empty list. -/
theorem hasEmptyList_of_flag (policy : Policy)
    (hs : s ∈ (read language path source).sites)
    (hwritten : s.origin.isCompilerGenerated = false)
    (hflag : s.decision language (read language path source).constants policy = .flag) :
    s.GivesZero (read language path source) ∨ (read language path source).HasEmptyList s := by
  have hzero := Site.isZero_of_flag hflag
  cases hevidence : s.evidence language (read language path source).constants with
  | constantZero => exact .inl (Site.exists_size_of_evidence hevidence)
  | emptyInitializer =>
    obtain ⟨i, hi, hcontents⟩ := Site.exists_initializer_of_evidence hevidence
    have hstands := (isWrittenIn_of_mem_sites hs).initializer hwritten i hi
    exact .inr (hasEmptyList_of_standsIn hi hcontents hstands)
  | constantNonZero =>
    rw [hevidence] at hzero
    cases hzero
  | unknown =>
    rw [hevidence] at hzero
    cases hzero

/-! ## A size that contradicts the list -/

/-- The size is zero and the list has two elements. -/
def contradictedSize : String :=
  "class C \x7b int[] a = new int[0] \x7b 1, 2 \x7d; \x7d"

/-- The site is flagged in spite of its list. -/
theorem exists_flagged_contradictedSize :
    let doc := read .csharp "" contradictedSize
    ∃ s ∈ doc.sites, s.origin = .explicit ∧
      s.decision .csharp doc.constants ⟨true, true, .flag⟩ = .flag ∧
      ∃ i, s.initializer = some i ∧
        i.contents = [⟨.number, "1"⟩, ⟨.punct, ","⟩, ⟨.number, "2"⟩] := by
  intro doc
  obtain ⟨s, hs⟩ : ∃ s, doc.sites = [s] := List.length_eq_one_iff.1 (by decide +kernel)
  have hsite : doc.sites.all (fun s => s.allocated = ⟨[some [⟨.number, "0"⟩]]⟩ &&
      !s.inAttribute && s.origin = .explicit && !s.malformed && !s.element.isPointer &&
      s.element.resolved && s.initializer.map Initializer.contents =
        some [⟨.number, "1"⟩, ⟨.punct, ","⟩, ⟨.number, "2"⟩]) := by
    decide +kernel
  simp only [hs, List.all_cons, List.all_nil, Bool.and_true, Bool.and_eq_true, decide_eq_true_eq,
    Bool.not_eq_true'] at hsite
  obtain ⟨⟨⟨⟨⟨⟨hallocated, hattribute⟩, horigin⟩, hmalformed⟩, hpointer⟩, hresolved⟩, hlist⟩ :=
    hsite
  have hfold : fold CSharp.dialect doc.constants [⟨.number, "0"⟩] = some 0 :=
    SizeExpr.fold_number CSharp.castsInBrackets CSharp.literalsRepresented _ rfl (by decide)
  have hlength : Language.csharp.length? doc.constants [⟨.number, "0"⟩] = some 0 := by
    rw [Language.length?, CSharp.length?, hfold]
    rfl
  have hzero : s.evidence .csharp doc.constants = .constantZero := by
    simp [Site.evidence, hallocated, hlength]
  refine ⟨s, by simp [hs], horigin, ?_, Option.map_eq_some_iff.1 hlist⟩
  simp [Site.decision, hattribute, horigin, Origin.isCompilerGenerated, hmalformed, hallocated,
    ArrayLevel.rank, hpointer, hzero, hresolved]

/-- Flagged sites may have elements. -/
theorem not_forall_contents_eq_nil :
    ¬∀ (language : Language) (path source : String) (policy : Policy) (s : Site),
      s ∈ (read language path source).sites → s.origin.isCompilerGenerated = false →
        s.decision language (read language path source).constants policy = .flag →
        ∀ i, s.initializer = some i → i.contents = [] := by
  intro hclaim
  obtain ⟨s, hs, horigin, hflag, i, hi, hcontents⟩ := exists_flagged_contradictedSize
  have hnil := hclaim .csharp "" contradictedSize _ s hs (by rw [horigin]; rfl) hflag i hi
  rw [hcontents] at hnil
  cases hnil

/-- The contradicted size is zero. -/
theorem givesZero_contradictedSize :
    let doc := read .csharp "" contradictedSize
    ∃ s ∈ doc.sites, s.origin.isCompilerGenerated = false ∧
      s.decision .csharp doc.constants ⟨true, true, .flag⟩ = .flag ∧
      (s.GivesZero doc ∨ doc.HasEmptyList s) := by
  intro doc
  obtain ⟨s, hs, horigin, hflag, -⟩ := exists_flagged_contradictedSize
  have hwritten : s.origin.isCompilerGenerated = false := by
    rw [horigin]
    rfl
  exact ⟨s, hs, hwritten, hflag, hasEmptyList_of_flag _ hs hwritten hflag⟩

end Document

end ZeroAlloc
