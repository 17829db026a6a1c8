import ZeroAlloc.Proofs.Bracket
import ZeroAlloc.Proofs.CSharp.Extent
import ZeroAlloc.Proofs.Site.Extent
set_option autoImplicit false

/-! # Attribute sections in C#

A site is marked just if it lies in an attribute section (`inAttribute_of_mem_sites`). Sections that
stand behind each other at the start of a declaration are all found (`mem_attributeSections`),
unless a list inside one of them is itself taken for a section: the next section then follows
none. -/

namespace ZeroAlloc.CSharp

/-! ## Marks -/

theorem inAttribute_of_creation {ls : List Lexeme} {s : Site} (h : creation? ls = some s) :
    s.inAttribute = false := by
  cases isCreation_of_creation h with
  | inferred | listed | unlisted => rfl

theorem inAttribute_of_mem_declarationSites {before ls : List Lexeme} {s : Site}
    (h : s ∈ declarationSites before ls) : s.inAttribute = false := by
  obtain ⟨_, _, _, _, -, -, -, hlist⟩ := exists_isListOn_of_mem_declarationSites h
  cases hlist
  rfl

theorem inAttribute_of_paramArrayCall {arrays : List ParamArray} {before ls : List Lexeme}
    {s : Site} (h : paramArrayCall? arrays before ls = some s) : s.inAttribute = false := by
  obtain ⟨array, -, -, -, -, -, -, -, -, rfl⟩ := exists_callSite_of_paramArrayCall h
  rfl

/-- A site is marked just if it lies in an attribute section. -/
theorem inAttribute_of_mem_sites {ls : List Lexeme} {s : Site} (h : s ∈ sites ls) :
    s.inAttribute = s.liesWithin (attributeSections [] 0 none ls) := by
  refine Site.inAttribute_of_mem_collected (fun before here s hs => ?_) h
  simp only [List.mem_append, Option.mem_toList] at hs
  rcases hs with (hs | hs) | hs
  · exact inAttribute_of_creation hs
  · exact inAttribute_of_mem_declarationSites hs
  · exact inAttribute_of_paramArrayCall hs

/-! ## Sections behind each other -/

/-- Whether the row is an attribute section with its brackets. -/
def isSection (ls : List Lexeme) : Bool :=
  (BracketPair.squares.group? ls).any fun (inside, rest) =>
    startsWithIdent inside && !startsWithText ["new"] inside && rest.isEmpty

/-- Whether a declaration or a parameter can start at a place and go on behind its first attribute
section with the row `behind`. -/
def startsDeclaration (before behind : List Lexeme) : Bool :=
  if startsWithText ["(", ","] before then startsWithIdent behind || startsWithPunct "[" behind
  else
    (before.isEmpty || startsWithText [";", "\x7b", "\x7d"] before) &&
      isAttributeSection.opensDeclaration behind

/-- Whether a bracketed list of words in the row stands where a section could. -/
def holdsSection : List Lexeme → Bool
  | l :: opening :: ls =>
    ([";", "\x7b", "\x7d", "(", ","].contains l.text && opening.isPunct "[" &&
      startsWithIdent ls && !startsWithText ["new"] ls) || holdsSection (opening :: ls)
  | _ => false

theorem exists_of_isSection {ls : List Lexeme} (h : isSection ls = true) :
    ∃ opening inside close, ls = opening :: (inside ++ [close]) ∧ opening.isPunct "[" = true ∧
      close.isPunct "]" = true ∧ BracketPair.squares.Nested inside ∧
      startsWithIdent inside = true ∧ startsWithText ["new"] inside = false := by
  unfold isSection at h
  cases hgroup : BracketPair.squares.group? ls with
  | none =>
    rw [hgroup] at h
    cases h
  | some p =>
    obtain ⟨inside, rest⟩ := p
    rw [hgroup] at h
    simp only [Option.any_some, Bool.and_eq_true, Bool.not_eq_true', List.isEmpty_iff] at h
    obtain ⟨⟨hword, hnew⟩, rfl⟩ := h
    obtain ⟨opening, close, hopen, hclose, hls⟩ := BracketPair.eq_append_of_group hgroup
    exact ⟨opening, inside, close, hls, hopen, hclose, BracketPair.nested_of_group hgroup, hword,
      hnew⟩

theorem isAttributeSection_of_startsDeclaration {before behind : List Lexeme}
    (h : startsDeclaration before behind = true) (adjoins : Bool) :
    isAttributeSection before behind adjoins = true := by
  unfold startsDeclaration at h
  unfold isAttributeSection
  cases before with
  | nil => simpa [startsWithText] using h
  | cons l before => grind [startsWithText]

/-- A declaration that goes on with a section can start where one that goes on otherwise can. -/
theorem startsDeclaration_append {before attributes behind rest : List Lexeme}
    (h : startsDeclaration before behind = true) (hattributes : isSection attributes = true) :
    startsDeclaration before (attributes ++ rest) = true := by
  obtain ⟨opening, inside, close, rfl, hopen, -⟩ := exists_of_isSection hattributes
  have hother (p : String) (hp : p ≠ "[") : opening.isPunct p = false :=
    BracketPair.isPunct_eq_false hp hopen
  have hopens : isAttributeSection.opensDeclaration (opening :: (inside ++ [close]) ++ rest) =
      true := by
    simp [isAttributeSection.opensDeclaration, startsWithPunct_cons, hother]
  have hbracket : startsWithPunct "[" (opening :: (inside ++ [close]) ++ rest) = true := hopen
  unfold startsDeclaration at h ⊢
  rw [hopens, hbracket]
  grind

theorem startsDeclaration_flatten {before behind : List Lexeme} {sections : List (List Lexeme)}
    (h : startsDeclaration before behind = true)
    (hsections : ∀ ls ∈ sections, isSection ls = true) :
    startsDeclaration before (sections.flatten ++ behind) = true := by
  cases sections with
  | nil => exact h
  | cons first sections =>
    rw [List.flatten_cons, List.append_assoc]
    exact startsDeclaration_append h (hsections first List.mem_cons_self)

/-- A section is seen where the lexemes around it allow for one. -/
theorem attributeSection?_of_isSection {attributes before rest : List Lexeme} {adjoins : Bool}
    (h : isSection attributes = true) (hplace : isAttributeSection before rest adjoins = true) :
    ∃ width, attributes.length = width + 2 ∧
      attributeSection? before (attributes ++ rest) adjoins = some width := by
  obtain ⟨opening, inside, close, rfl, hopen, hclose, hnested, hword, hnew⟩ := exists_of_isSection h
  have hgroup : BracketPair.squares.group? (opening :: (inside ++ [close]) ++ rest) =
      some (inside, rest) := by
    rw [List.cons_append, BracketPair.group?, if_pos (by exact hopen)]
    exact (BracketPair.untilClose_eq_some_iff (by decide)).2
      ⟨close, hclose, by simp, hnested⟩
  obtain ⟨word, more, rfl⟩ : ∃ word more, inside = word :: more := by
    cases inside with
    | nil => cases hword
    | cons word more => exact ⟨word, more, rfl⟩
  refine ⟨(word :: more).length, by simp, ?_⟩
  rw [attributeSection?, hgroup]
  have hfirst : startsWithIdent (word :: more ++ [close] ++ rest) = true := hword
  have hother : startsWithText ["new"] (word :: more ++ [close] ++ rest) = false := hnew
  rw [List.cons_append, List.tail_cons, hfirst, hother]
  simp [hplace]

/-- A list of words is no section where none could stand. -/
theorem attributeSection?_eq_none {l next : Lexeme} {before ls : List Lexeme}
    (h : ([";", "\x7b", "\x7d", "(", ","].contains l.text && next.isPunct "[" &&
      startsWithIdent ls && !startsWithText ["new"] ls) = false) :
    attributeSection? (l :: before) (next :: ls) false = none := by
  unfold attributeSection?
  split
  · rename_i hwords
    obtain ⟨hword, hnew⟩ := Bool.and_eq_true_iff.1 hwords
    split
    · rename_i inside after hgroup
      have hopen : next.isPunct "[" = true := startsWithPunct_of_group hgroup
      rw [List.tail_cons] at hword hnew
      rw [hopen, hword, hnew] at h
      have hplace : isAttributeSection (l :: before) after false = false := by
        unfold isAttributeSection
        grind
      rw [hplace]
      rfl
    · rfl
  · rfl

/-- Inside a section that holds none itself, no section is found. -/
theorem attributeSections_inside {l close : Lexeme} {before inside rest : List Lexeme}
    {index last : Nat} (hclose : close.isPunct "]" = true)
    (h : holdsSection (l :: (inside ++ [close])) = false) (hlast : index + inside.length ≤ last) :
    attributeSections (l :: before) index (some last) (inside ++ close :: rest) =
      attributeSections (close :: (inside.reverse ++ l :: before)) (index + inside.length + 1)
        (some last) rest := by
  induction inside generalizing l before index with
  | nil =>
    have hgroup : BracketPair.squares.group? (close :: rest) = none :=
      group_eq_none (BracketPair.isPunct_eq_false (by decide) hclose)
    simp [attributeSections, attributeSection?, hgroup]
  | cons next inside ih =>
    rw [List.length_cons] at hlast
    rw [List.cons_append, holdsSection, Bool.or_eq_false_iff] at h
    obtain ⟨hhere, hmore⟩ := h
    have hnone : attributeSection? (l :: before) (next :: (inside ++ close :: rest))
        (last + 1 == index) = none := by
      -- the section that goes on here ends further on
      rw [show (last + 1 == index) = false by simp; omega]
      refine attributeSection?_eq_none ?_
      cases inside <;> exact hhere
    rw [List.cons_append, attributeSections, Option.any_some, hnone]
    refine (ih hmore (by omega)).trans ?_
    rw [List.reverse_cons, List.append_assoc, List.length_cons, List.singleton_append,
      Nat.add_right_comm index 1]
    rfl

/-- A section that is seen, and holds none itself, counts as the one before what follows it. -/
theorem attributeSections_cons {attributes before rest : List Lexeme} {index : Nat}
    {previous : Option Nat} (h : isSection attributes = true)
    (hholds : holdsSection attributes = false)
    (hplace : isAttributeSection before rest (previous.any (· + 1 == index)) = true) :
    ∃ last close more, last + 1 = index + attributes.length ∧ close.isPunct "]" = true ∧
      attributeSections before index previous (attributes ++ rest) =
        (index, last) :: attributeSections (close :: more) (last + 1) (some last) rest := by
  obtain ⟨width, hlength, hseen⟩ := attributeSection?_of_isSection h hplace
  obtain ⟨opening, inside, close, rfl, -, hclose, -⟩ := exists_of_isSection h
  have hwidth : width = inside.length := by simpa using hlength.symm
  subst hwidth
  refine ⟨index + inside.length + 1, close, inside.reverse ++ opening :: before, ?_, hclose, ?_⟩
  · rw [hlength]
    omega
  · rw [List.cons_append, List.append_assoc, List.singleton_append] at hseen ⊢
    rw [attributeSections, hseen]
    dsimp only
    rw [attributeSections_inside hclose hholds (by omega), Nat.add_right_comm index 1]

theorem head_mem_attributeSections {attributes before rest : List Lexeme} {index : Nat}
    {previous : Option Nat} (h : isSection attributes = true)
    (hplace : isAttributeSection before rest (previous.any (· + 1 == index)) = true) :
    ∃ last, last + 1 = index + attributes.length ∧
      (index, last) ∈ attributeSections before index previous (attributes ++ rest) := by
  obtain ⟨width, hlength, hseen⟩ := attributeSection?_of_isSection h hplace
  obtain ⟨opening, inside, close, rfl, -⟩ := exists_of_isSection h
  refine ⟨index + width + 1, by omega, ?_⟩
  rw [List.cons_append] at hseen ⊢
  rw [attributeSections, hseen]
  exact List.mem_cons_self

/-- Behind a section that was seen, all sections that follow directly are seen, as long as none of
those before them holds one. -/
theorem mem_attributeSections_behind {earlier : List (List Lexeme)}
    {attributes before rest : List Lexeme} {close : Lexeme} {last : Nat}
    (hclose : close.isPunct "]" = true) (hearlier : ∀ ls ∈ earlier, isSection ls = true)
    (hholds : ∀ ls ∈ earlier, holdsSection ls = false) (h : isSection attributes = true) :
    ∃ stop, stop + 1 = last + 1 + earlier.flatten.length + attributes.length ∧
      (last + 1 + earlier.flatten.length, stop) ∈
        attributeSections (close :: before) (last + 1) (some last)
          (earlier.flatten ++ (attributes ++ rest)) := by
  have hplace (close : Lexeme) (hclose : close.isPunct "]" = true) (before after : List Lexeme)
      (last : Nat) :
      isAttributeSection (close :: before) after ((some last).any (· + 1 == last + 1)) = true := by
    simp only [Lexeme.isPunct, Bool.and_eq_true, decide_eq_true_eq] at hclose
    simp [isAttributeSection, hclose.2]
  induction earlier generalizing before close last with
  | nil => exact head_mem_attributeSections h (hplace close hclose before rest last)
  | cons first earlier ih =>
    obtain ⟨next, close', more, hnext, hclose', hsections⟩ :=
      attributeSections_cons (hearlier first List.mem_cons_self) (hholds first List.mem_cons_self)
        (hplace close hclose before (earlier.flatten ++ (attributes ++ rest)) last)
    obtain ⟨stop, hstop, hmem⟩ := @ih more close' next hclose'
      (fun ls hls => hearlier ls (List.mem_cons_of_mem first hls))
      (fun ls hls => hholds ls (List.mem_cons_of_mem first hls))
    rw [List.flatten_cons, List.length_append, List.append_assoc, hsections, ← Nat.add_assoc,
      ← hnext]
    exact ⟨stop, hstop, List.mem_cons_of_mem _ hmem⟩

theorem exists_attributeSections_append (before : List Lexeme) (index : Nat)
    (previous : Option Nat) (ls more : List Lexeme) :
    ∃ found previous', attributeSections before index previous (ls ++ more) =
      found ++ attributeSections (ls.reverse ++ before) (index + ls.length) previous' more := by
  induction ls generalizing before index previous with
  | nil => exact ⟨[], previous, rfl⟩
  | cons l ls ih =>
    have hplace : (l :: ls).reverse ++ before = ls.reverse ++ l :: before := by simp
    rw [hplace, List.length_cons, Nat.add_comm ls.length, ← Nat.add_assoc, List.cons_append,
      attributeSections]
    split
    · rename_i width _
      obtain ⟨found, previous', hmore⟩ := ih (l :: before) (index + 1) (some (index + width + 1))
      exact ⟨_ :: found, previous', congrArg _ hmore⟩
    · exact ih (l :: before) (index + 1) previous

/-- Of sections behind each other at the start of a declaration, one is found if none of those
before it holds a list that is taken for a section. -/
theorem mem_attributeSections {earlier : List (List Lexeme)}
    {attributes before rest : List Lexeme} (hearlier : ∀ ls ∈ earlier, isSection ls = true)
    (hholds : ∀ ls ∈ earlier, holdsSection ls = false) (h : isSection attributes = true)
    (hstart : startsDeclaration before.reverse rest = true) :
    ∃ stop, stop + 1 = before.length + earlier.flatten.length + attributes.length ∧
      (before.length + earlier.flatten.length, stop) ∈ attributeSections [] 0 none
        (before ++ (earlier.flatten ++ (attributes ++ rest))) := by
  obtain ⟨found, previous, hsections⟩ := exists_attributeSections_append [] 0 none before
    (earlier.flatten ++ (attributes ++ rest))
  rw [hsections, List.append_nil, Nat.zero_add]
  cases earlier with
  | nil =>
    obtain ⟨stop, hstop, hmem⟩ := head_mem_attributeSections h
      (isAttributeSection_of_startsDeclaration hstart (previous.any (· + 1 == before.length)))
    exact ⟨stop, hstop, List.mem_append_right found hmem⟩
  | cons first earlier =>
    rw [List.forall_mem_cons] at hearlier hholds
    obtain ⟨last, close, more, hlast, hclose, hfirst⟩ :=
      attributeSections_cons hearlier.1 hholds.1
        (isAttributeSection_of_startsDeclaration
          (startsDeclaration_flatten (startsDeclaration_append hstart h) hearlier.2)
          (previous.any (· + 1 == before.length)))
    obtain ⟨stop, hstop, hmem⟩ :=
      mem_attributeSections_behind hclose hearlier.2 hholds.2 h
    rw [List.flatten_cons, List.length_append, List.append_assoc, hfirst, ← Nat.add_assoc, ← hlast]
    exact ⟨stop, hstop, List.mem_append_right found (List.mem_cons_of_mem _ hmem)⟩

end ZeroAlloc.CSharp
