import ZeroAlloc.Proofs.CSharp.Nesting
import ZeroAlloc.Proofs.Document.Places
import ZeroAlloc.Proofs.VisualBasic.Nesting
set_option autoImplicit false

/-! # Sites inside each other

In a source whose brackets are nested, no two sites overlap in part: one ends before the other
starts, or one holds the other (`siteSpans_nest`). -/

namespace ZeroAlloc

/-- The brackets that enclose lists in the language. -/
def Language.brackets : Language → Brackets
  | csharp => CSharp.brackets
  | visualBasic => VisualBasic.brackets

/-- One of the spans ends before the other starts, or one holds the other. -/
def Text.Span.Nest (span other : Span) : Prop :=
  span.stop ≤ other.start ∨ other.stop ≤ span.start ∨ span.contains other = true ∨
    other.contains span = true

namespace Document

/-- The brackets of the file are jointly nested. In C#, where a search for the end of type arguments
passes over all other brackets, so are those in the element type of each site. -/
structure IsNested (doc : Document) : Prop where
  tokens : doc.language.brackets.Nests (lexemes doc.tokens.toList)
  elements : doc.language = .csharp →
    ∀ s ∈ doc.sites, doc.language.brackets.Nests s.element.parts

section Read

variable {language : Language} {path source : String}

theorem nests_of_mem_sites (h : (read language path source).IsNested) {s other : Site}
    (hs : s ∈ (read language path source).sites)
    (hother : other ∈ (read language path source).sites) :
    s.last < other.first ∨ other.last < s.first ∨
      (s.first ≤ other.first ∧ other.last ≤ s.last) ∨
      (other.first ≤ s.first ∧ s.last ≤ other.last) := by
  cases language with
  | csharp =>
    exact Site.nests_of_isStretch CSharp.apart
      (CSharp.isStretch_of_mem_sites h.tokens (h.elements rfl s hs) hs)
      (CSharp.isStretch_of_mem_sites h.tokens (h.elements rfl other hother) hother)
  | visualBasic =>
    exact Site.nests_of_isStretch VisualBasic.apart
      (VisualBasic.isStretch_of_mem_sites h.tokens hs)
      (VisualBasic.isStretch_of_mem_sites h.tokens hother)

/-- A site that ends before another one starts, by the indices of their tokens, does so in the
text. -/
theorem stop_le_start_of_mem_sites {s other : Site} (hs : s ∈ (read language path source).sites)
    (hother : other ∈ (read language path source).sites) (h : s.last < other.first) :
    ((read language path source).siteSpan s).stop ≤
      ((read language path source).siteSpan other).start := by
  have hlies := Language.liesIn_of_mem_sites hother
  have hlast := last_lt_length_of_mem_sites hother
  by_contra hlt
  have hmeet := (tokenStart_lt_tokenStop_iff (Nat.lt_of_le_of_lt hlies.first_le_last hlast)
    (last_lt_length_of_mem_sites hs)).1 (Nat.lt_of_not_le hlt)
  exact absurd hmeet (Nat.not_le_of_lt h)

/-- A site that holds another one, by the indices of their tokens, does so in the text. -/
theorem contains_of_mem_sites {s other : Site} (hs : s ∈ (read language path source).sites)
    (hother : other ∈ (read language path source).sites) (hfirst : s.first ≤ other.first)
    (hlast : other.last ≤ s.last) :
    ((read language path source).siteSpan s).contains
      ((read language path source).siteSpan other) = true := by
  have hlies := Language.liesIn_of_mem_sites hother
  simp only [Text.Span.contains, Bool.and_eq_true, decide_eq_true_eq]
  exact ⟨tokenStart_le hfirst
    (Nat.lt_of_le_of_lt hlies.first_le_last (last_lt_length_of_mem_sites hother)),
    tokenStop_le hlast (last_lt_length_of_mem_sites hs)⟩

/-- In a source whose brackets are nested, the spans of any two sites are apart, or one holds the
other. -/
theorem siteSpans_nest (h : (read language path source).IsNested) :
    ∀ s ∈ (read language path source).sites, ∀ other ∈ (read language path source).sites,
      ((read language path source).siteSpan s).Nest
        ((read language path source).siteSpan other) := by
  intro s hs other hother
  rcases nests_of_mem_sites h hs hother with hbefore | hbefore | ⟨hfirst, hlast⟩ | ⟨hfirst, hlast⟩
  · exact .inl (stop_le_start_of_mem_sites hs hother hbefore)
  · exact .inr (.inl (stop_le_start_of_mem_sites hother hs hbefore))
  · exact .inr (.inr (.inl (contains_of_mem_sites hs hother hfirst hlast)))
  · exact .inr (.inr (.inr (contains_of_mem_sites hother hs hfirst hlast)))

end Read

/-- An initializer list with two creation expressions in it, and one in the type arguments of
another. -/
def nestedCreations : String :=
  "class C \x7b int[][] a = \x7b new int[] \x7b \x7d, new int[0] \x7d;\n" ++
    "object o = new A<new B[]>[2]; \x7d"

theorem siteSpans_nest_nestedCreations :
    (read .csharp "c.cs" nestedCreations).IsNested ∧
      (read .csharp "c.cs" nestedCreations).sites.length = 5 ∧
      ∀ s ∈ (read .csharp "c.cs" nestedCreations).sites,
        ∀ other ∈ (read .csharp "c.cs" nestedCreations).sites,
          ((read .csharp "c.cs" nestedCreations).siteSpan s).Nest
            ((read .csharp "c.cs" nestedCreations).siteSpan other) := by
  -- the kernel does not evaluate the sorting of sites, which changes neither members nor number
  have hsites : (read .csharp "c.cs" nestedCreations).sites = List.mergeSort _ _ := rfl
  have helements : ∀ s ∈ (read .csharp "c.cs" nestedCreations).sites,
      CSharp.brackets.Nests s.element.parts := by
    intro s hs
    rw [hsites, List.mem_mergeSort] at hs
    revert s
    decide +kernel
  have hlength : (read .csharp "c.cs" nestedCreations).sites.length = 5 := by
    rw [hsites, List.length_mergeSort]
    decide +kernel
  have hnested : (read .csharp "c.cs" nestedCreations).IsNested :=
    ⟨by decide +kernel, fun _ => helements⟩
  exact ⟨hnested, hlength, siteSpans_nest hnested⟩

end Document

end ZeroAlloc
