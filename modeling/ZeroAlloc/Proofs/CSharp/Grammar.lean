import ZeroAlloc.Proofs.CSharp.Nesting
import ZeroAlloc.Proofs.CSharp.Spelling
set_option autoImplicit false

/-! # The grammar of C# types

Types are read by shape alone, from left to right and without a grammar. A type that the grammar
derives, with the unsized levels of an array, is read as a whole (`typeRef?_of_derives`). -/

namespace ZeroAlloc

/-! ## Punctuation -/

/-- The punctuation with a text. -/
def Lexeme.punct (p : String) : Lexeme := ⟨.punct, p⟩

@[simp] theorem Lexeme.isPunct_punct (p q : String) : (punct p).isPunct q = (p == q) :=
  rfl

@[simp] theorem Lexeme.isIdent_punct (p : String) : (punct p).isIdent = false := rfl

/-- Punctuation at the start of a row is its first text. -/
theorem startsWithText_eq_contains {p : String} {ls : List Lexeme}
    (h : startsWithPunct p ls = true) (texts : List String) :
    startsWithText texts ls = texts.contains p := by
  cases ls with
  | nil => cases h
  | cons l ls =>
    simp only [startsWithPunct_cons, Lexeme.isPunct, Bool.and_eq_true, decide_eq_true_eq] at h
    rw [startsWithText, List.head?_cons, Option.any_some, h.2]

namespace BracketPair

/-- A row in brackets of the pair. -/
def enclose (b : BracketPair) (contents : List Lexeme) : List Lexeme :=
  .punct b.opening :: (contents ++ [.punct b.closing])

@[simp] theorem length_enclose (b : BracketPair) (contents : List Lexeme) :
    (b.enclose contents).length = contents.length + 2 := by
  simp [enclose]

theorem group?_enclose {b : BracketPair} (hne : b.opening ≠ b.closing) {contents : List Lexeme}
    (h : b.Nested contents) (rest : List Lexeme) :
    b.group? (b.enclose contents ++ rest) = some (contents, rest) := by
  rw [enclose, List.cons_append, group?, if_pos (by simp), untilClose_eq_some_iff hne]
  exact ⟨.punct b.closing, by simp, by simp, h⟩

end BracketPair

namespace CSharp

/-! ## Phrases -/

/-- The phrases that types are made of. -/
inductive Phrase where
  /-- A word, with type arguments or without. -/
  | part
  /-- Parts with points or double colons between them. -/
  | name
  /-- A type that is no array. -/
  | element
  /-- Any type. A nullable array is one, but no element type. -/
  | type
  /-- Types with commas between them. In a tuple they may have names. -/
  | types

/-- The rows of lexemes that are phrases. -/
inductive Phrase.Derives : Phrase → List Lexeme → Prop where
  | word {l : Lexeme} (hl : l.isIdent = true) (hword : nonTypeWords.contains l.text = false) :
      Derives .part [l]
  | generic {l : Lexeme} {arguments : List Lexeme} (hl : l.isIdent = true)
      (hword : nonTypeWords.contains l.text = false) (h : Derives .types arguments) :
      Derives .part (l :: angles.enclose arguments)
  | part {ls : List Lexeme} (h : Derives .part ls) : Derives .name ls
  | point {ls more : List Lexeme} (h : Derives .part ls) (hmore : Derives .name more) :
      Derives .name (ls ++ .punct "." :: more)
  | colons {ls more : List Lexeme} (h : Derives .part ls) (hmore : Derives .name more) :
      Derives .name (ls ++ .punct ":" :: .punct ":" :: more)
  | name {ls : List Lexeme} (h : Derives .name ls) : Derives .element ls
  | global {ls : List Lexeme} (h : Derives .name ls) :
      Derives .element (⟨.ident, "global"⟩ :: .punct ":" :: .punct ":" :: ls)
  | tuple {ls : List Lexeme} (h : Derives .types ls) :
      Derives .element (BracketPair.parens.enclose ls)
  | nullable {ls : List Lexeme} (h : Derives .element ls) : Derives .element (ls ++ [.punct "?"])
  | pointer {ls : List Lexeme} (h : Derives .element ls) : Derives .element (ls ++ [.punct "*"])
  | element {ls : List Lexeme} (h : Derives .element ls) : Derives .type ls
  | array {ls : List Lexeme} (h : Derives .type ls) (rank : Nat) :
      Derives .type (ls ++ BracketPair.squares.unsized rank)
  | nullableArray {ls : List Lexeme} (h : Derives .type ls) : Derives .type (ls ++ [.punct "?"])
  | type {ls : List Lexeme} (h : Derives .type ls) : Derives .types ls
  | named {ls : List Lexeme} {l : Lexeme} (h : Derives .type ls) (hl : l.isIdent = true) :
      Derives .types (ls ++ [l])
  | comma {ls more : List Lexeme} (h : Derives .types ls) (hmore : Derives .types more) :
      Derives .types (ls ++ .punct "," :: more)

/-! ## What stands in type arguments -/

/-- The brackets of types around other types. -/
def typeBrackets : Brackets where
  pairs := [angles, .parens]

/-- Whether the lexeme can stand in a list of type arguments. -/
def isArgumentLexeme (l : Lexeme) : Bool :=
  l.isPunct ">" || l.isPunct "<" || (l.isIdent || isTypeArgumentMark l)

/-- The row can stand in a list of type arguments. -/
structure IsArgument (ls : List Lexeme) : Prop where
  nests : typeBrackets.Nests ls
  holds : ∀ l ∈ ls, isArgumentLexeme l = true

namespace IsArgument

theorem append {ls more : List Lexeme} (h : IsArgument ls) (hmore : IsArgument more) :
    IsArgument (ls ++ more) where
  nests := h.nests.append hmore.nests
  holds l hl := (List.mem_append.1 hl).elim (h.holds l) (hmore.holds l)

theorem of_isIdent {l : Lexeme} (h : l.isIdent = true) : IsArgument [l] where
  nests := .of_isIdent h
  holds m hm := by simp [isArgumentLexeme, List.mem_singleton.1 hm, h]

theorem mark {p : String} (h : p ∈ [",", ".", "?", "[", "]", "*", ":"]) :
    IsArgument [.punct p] where
  nests := by
    revert p
    decide
  holds m hm := by
    obtain rfl := List.mem_singleton.1 hm
    clear hm
    revert p
    decide

theorem enclose {b : BracketPair} (hb : b ∈ typeBrackets.pairs) {ls : List Lexeme}
    (h : IsArgument ls) : IsArgument (b.enclose ls) where
  nests := (Brackets.IsGroup.intro hb (by simp) h.nests (by simp)).nests
  holds l hl := by
    have hbrackets : ∀ b ∈ typeBrackets.pairs, isArgumentLexeme (.punct b.opening) = true ∧
        isArgumentLexeme (.punct b.closing) = true := by
      decide
    obtain ⟨hopening, hclosing⟩ := hbrackets b hb
    rcases List.mem_cons.1 hl with rfl | hl
    · exact hopening
    · rcases List.mem_append.1 hl with hl | hl
      · exact h.holds l hl
      · rwa [List.mem_singleton.1 hl]

theorem unsized (rank : Nat) : IsArgument (BracketPair.squares.unsized rank) := by
  have hcommas (n : Nat) : IsArgument (List.replicate n BracketPair.comma) := by
    induction n with
    | zero => exact ⟨.nil, nofun⟩
    | succ n ih => exact (mark (p := ",") (by decide)).append ih
  exact (mark (p := "[") (by decide)).append
    ((hcommas (rank - 1)).append (mark (p := "]") (by decide)))

end IsArgument

/-- Every phrase can stand in a list of type arguments. -/
theorem Phrase.Derives.isArgument {p : Phrase} {ls : List Lexeme} (h : p.Derives ls) :
    IsArgument ls := by
  have hcomma : IsArgument [.punct ","] := .mark (by decide)
  have hpoint : IsArgument [.punct "."] := .mark (by decide)
  have hquestion : IsArgument [.punct "?"] := .mark (by decide)
  have hstar : IsArgument [.punct "*"] := .mark (by decide)
  have hcolons : IsArgument [.punct ":", .punct ":"] :=
    (IsArgument.mark (by decide)).append (.mark (by decide))
  induction h with
  | word hl => exact .of_isIdent hl
  | generic hl _ _ ih => exact (IsArgument.of_isIdent hl).append (ih.enclose (by decide))
  | part _ ih | name _ ih | element _ ih | type _ ih => exact ih
  | point _ _ ih ihmore => exact ih.append (hpoint.append ihmore)
  | colons _ _ ih ihmore => exact ih.append (hcolons.append ihmore)
  | global _ ih => exact (IsArgument.of_isIdent rfl).append (hcolons.append ih)
  | tuple _ ih => exact ih.enclose (by decide)
  | nullable _ ih | nullableArray _ ih => exact ih.append hquestion
  | pointer _ ih => exact ih.append hstar
  | array _ rank ih => exact ih.append (.unsized rank)
  | named _ hl ih => exact ih.append (.of_isIdent hl)
  | comma _ _ ih ihmore => exact ih.append (hcomma.append ihmore)

/-- A list of type arguments is read over a nested row. -/
theorem typeArgumentsFrom?_append_nested {inside : List Lexeme} (h : angles.Nested inside)
    (hholds : ∀ l ∈ inside, isArgumentLexeme l = true) (depth : Nat) (ls : List Lexeme) :
    typeArgumentsFrom? depth (inside ++ ls) =
      (typeArgumentsFrom? depth ls).map fun p => (inside ++ p.1, p.2) := by
  induction h generalizing depth ls with
  | nil => simp
  | @plain l rest hopen hclose _ ih =>
    have hopen : l.isPunct "<" = false := hopen
    have hclose : l.isPunct ">" = false := hclose
    have hl : (l.isIdent || isTypeArgumentMark l) = true := by
      simpa [isArgumentLexeme, hopen, hclose] using hholds l List.mem_cons_self
    rw [List.cons_append, typeArgumentsFrom?.eq_def]
    simp only [hopen, hclose, hl, Bool.false_eq_true, if_false, if_true,
      ih fun m hm => hholds m (List.mem_cons_of_mem l hm)]
    simp [Function.comp_def]
  | @group opening close inside rest hopen _ hclose _ ihinside ih =>
    have hopen : opening.isPunct "<" = true := hopen
    have hclose : close.isPunct ">" = true := hclose
    have hopens : opening.isPunct ">" = false := BracketPair.isPunct_eq_false (by decide) hopen
    rw [List.cons_append, List.append_assoc, List.cons_append, typeArgumentsFrom?.eq_def]
    simp only [hopens, hopen, Bool.false_eq_true, if_false, if_true]
    rw [ihinside fun m hm => hholds m (by simp [hm]), typeArgumentsFrom?.eq_def]
    simp only [hclose, if_true, ih fun m hm => hholds m (by simp [hm])]
    simp [Function.comp_def]

theorem typeArguments?_enclose {arguments : List Lexeme} (h : IsArgument arguments)
    (more : List Lexeme) :
    typeArguments? (angles.enclose arguments ++ more) = some (angles.enclose arguments, more) := by
  rw [BracketPair.enclose, List.cons_append, typeArguments?, if_pos (by simp [angles]),
    List.append_assoc,
    typeArgumentsFrom?_append_nested (h.nests.nested (by decide)) h.holds]
  rfl

/-! ## Names -/

/-- No type arguments are read where none start. -/
theorem typeArguments?_eq_nil {ls : List Lexeme} (h : startsWithPunct "<" ls = false) :
    typeArguments? ls = some ([], ls) := by
  cases ls with
  | nil => rfl
  | cons l ls => exact if_neg (Bool.eq_false_iff.1 h)

/-- A part of a name is a word, and with type arguments it is read as a whole. -/
theorem Phrase.Derives.exists_of_part {ls : List Lexeme} (h : Phrase.part.Derives ls) :
    ∃ l arguments, ls = l :: arguments ∧ l.isIdent = true ∧
      (∀ row, isTypeWord l row = true) ∧ ∀ more, startsWithPunct "<" more = false →
        typeArguments? (arguments ++ more) = some (arguments, more) := by
  cases h with
  | @word l hl hword =>
    refine ⟨l, [], rfl, hl, fun row => ?_, fun more hmore => typeArguments?_eq_nil hmore⟩
    rw [isTypeWord, hl, hword]
    rfl
  | @generic l arguments hl hword h =>
    refine ⟨l, _, rfl, hl, fun row => ?_, fun more _ => typeArguments?_enclose h.isArgument more⟩
    rw [isTypeWord, hl, hword]
    rfl

/-- A word is read with its type arguments, and then what they qualify. -/
theorem typeName?_cons_append {l : Lexeme} {arguments more : List Lexeme}
    (hword : isTypeWord l (arguments ++ more) = true)
    (harguments : typeArguments? (arguments ++ more) = some (arguments, more)) :
    typeName? (l :: (arguments ++ more)) =
      match qualifier? more with
      | some q => (typeName? q.2).map fun r => (l :: arguments ++ q.1 ++ r.1, r.2)
      | none => some (l :: arguments, more) := by
  rw [typeName?_cons, if_pos hword, harguments]
  rfl

theorem typeName?_part_append {ls : List Lexeme} (h : Phrase.part.Derives ls) {more : List Lexeme}
    (hmore : startsWithPunct "<" more = false) :
    typeName? (ls ++ more) =
      match qualifier? more with
      | some q => (typeName? q.2).map fun r => (ls ++ q.1 ++ r.1, r.2)
      | none => some (ls, more) := by
  obtain ⟨l, arguments, rfl, -, hword, harguments⟩ := h.exists_of_part
  exact typeName?_cons_append (hword _) (harguments more hmore)

theorem Phrase.Derives.startsWithIdent {ls : List Lexeme} (h : Phrase.name.Derives ls)
    (more : List Lexeme) : startsWithIdent (ls ++ more) = true := by
  have hpart {ls : List Lexeme} (h : Phrase.part.Derives ls) (more : List Lexeme) :
      ZeroAlloc.startsWithIdent (ls ++ more) = true := by
    obtain ⟨l, arguments, rfl, hl, -, -⟩ := h.exists_of_part
    exact hl
  cases h with
  | part h => exact hpart h more
  | point h => rw [List.append_assoc]; exact hpart h _
  | colons h => rw [List.append_assoc]; exact hpart h _

theorem qualifier?_point {ls : List Lexeme} (h : startsWithIdent ls = true) :
    qualifier? (.punct "." :: ls) = some ([.punct "."], ls) := by
  cases ls with
  | nil => cases h
  | cons l ls => exact if_pos h

theorem qualifier?_colons {ls : List Lexeme} (h : startsWithIdent ls = true) :
    qualifier? (.punct ":" :: .punct ":" :: ls) = some ([.punct ":", .punct ":"], ls) := by
  cases ls with
  | nil => cases h
  | cons l ls =>
    rw [qualifier?, if_neg (by decide)]
    exact if_pos h

/-- A name is read in front of a row into which it does not go on. -/
theorem typeName?_of_derives {ls more : List Lexeme} (h : Phrase.name.Derives ls)
    (hmore : StopsName more) : typeName? (ls ++ more) = some (ls, more) := by
  generalize hp : Phrase.name = p at h
  induction h with
  | part h => rw [typeName?_part_append h (hmore "<" (by decide)), qualifier?_eq_none hmore]
  | point h hnext _ ih =>
    rw [List.append_assoc, List.cons_append, typeName?_part_append h rfl,
      qualifier?_point (hnext.startsWithIdent more)]
    dsimp only
    rw [ih rfl]
    simp
  | colons h hnext _ ih =>
    rw [List.append_assoc, List.cons_append, List.cons_append, typeName?_part_append h rfl,
      qualifier?_colons (hnext.startsWithIdent more)]
    dsimp only
    rw [ih rfl]
    simp
  | _ => cases hp

/-! ## Types -/

/-- A type that is no array is a name or a tuple, which is read as a whole, and its marks. -/
theorem Phrase.Derives.exists_of_element {ls : List Lexeme} (h : Phrase.element.Derives ls) :
    ∃ name marks, ls = name ++ marks ∧ (∀ l ∈ marks, isTypeMark l = true) ∧
      ∀ more, StopsName more → elementName? (name ++ more) = some (name, more) := by
  generalize hp : Phrase.element = p at h
  induction h with
  | @name ls h =>
    refine ⟨ls, [], (List.append_nil ls).symm, nofun, fun more hmore => ?_⟩
    have hopen := startsWithPunct_eq_false_of_startsWithIdent (h.startsWithIdent more) "("
    rw [elementName?, hopen]
    exact typeName?_of_derives h hmore
  | @global ls h =>
    refine ⟨_, [], (List.append_nil _).symm, nofun, fun more hmore => ?_⟩
    have hcolons : typeArguments? ([] ++ .punct ":" :: .punct ":" :: (ls ++ more)) =
        some ([], .punct ":" :: .punct ":" :: (ls ++ more)) :=
      typeArguments?_eq_nil rfl
    have hglobal := typeName?_cons_append (l := ⟨.ident, "global"⟩) rfl hcolons
    rw [qualifier?_colons (h.startsWithIdent more)] at hglobal
    dsimp only at hglobal
    rw [typeName?_of_derives h hmore] at hglobal
    exact hglobal
  | @tuple ls h =>
    refine ⟨_, [], (List.append_nil _).symm, nofun, fun more _ => ?_⟩
    have hgroup := BracketPair.group?_enclose (by decide)
      (h.isArgument.nests.nested (b := .parens) (by decide)) more
    have hopen : startsWithPunct "(" (BracketPair.parens.enclose ls ++ more) = true :=
      startsWithPunct_of_group hgroup
    rw [elementName?, if_pos hopen, tuple?, hgroup, Option.map_some]
    dsimp only
    rw [BracketPair.take_of_group hgroup]
  | nullable _ ih | pointer _ ih =>
    obtain ⟨name, marks, rfl, hmarks, hname⟩ := ih hp
    refine ⟨name, marks ++ [_], List.append_assoc .., fun l hl => ?_, hname⟩
    rcases List.mem_append.1 hl with hl | hl
    · exact hmarks l hl
    · rw [List.mem_singleton.1 hl]
      rfl
  | _ => cases hp

/-- A type of the grammar is read as a whole, with the unsized levels of an array. -/
theorem typeRef?_of_derives {element : List Lexeme} (h : Phrase.element.Derives element)
    {ranks : List Nat} (hranks : ∀ rank ∈ ranks, 0 < rank) :
    ∃ isPointer, typeRef? (element ++ ranks.flatMap BracketPair.squares.unsized) =
      some (⟨element, isPointer, ranks.map fun rank => ⟨List.replicate rank none⟩⟩, []) := by
  obtain ⟨name, marks, rfl, hmarks, hname⟩ := h.exists_of_element
  have hlevels : arrayLevels .squares (fun _ => true)
      (ranks.flatMap BracketPair.squares.unsized) = some (_, []) :=
    arrayLevels_unsized (by decide) (by decide) (by decide) (fun _ _ => rfl) hranks
  have hstart : ranks.flatMap BracketPair.squares.unsized = [] ∨
      startsWithPunct "[" (ranks.flatMap BracketPair.squares.unsized) = true := by
    cases ranks with
    | nil => exact .inl rfl
    | cons rank ranks => exact .inr rfl
  obtain ⟨htake, hdrop⟩ := marks_append hmarks hstart
  have hread := hname _ (stopsName_of_dropWhile (by rwa [hdrop]))
  refine ⟨marks.any (·.isPunct "*"), ?_⟩
  rw [typeRef?_eq, List.append_assoc, hread, Option.bind_some]
  dsimp only
  rw [hdrop, htake, hlevels]
  rfl

end CSharp

end ZeroAlloc
