import Mathlib.Data.List.Forall2
import ZeroAlloc.Proofs.Site.Extent
set_option autoImplicit false

/-! # Respelled lexemes

A respelling changes the texts of names, numbers, literals and malformed pieces, but no punctuation,
and keeps the canonical form of every name. Everything that is recognised in a row is recognised in
the respelled row, with its texts respelled: each reader commutes with `Respelling.row`. This module
has the readers that the languages share. -/

namespace ZeroAlloc

/-- Characters that no word has which the recognisers look for. -/
def foreignMarks : List Char := ['"', '\'', '/', '\n', '\r']

/-- Whether a text holds one of these characters. -/
def holdsMark (text : String) : Bool :=
  text.toList.any foreignMarks.contains

/-- A change of texts that keeps the canonical form of names, and makes no words of literals. -/
structure Respelling (canonical : String → String) where
  /-- The new text of a name or number. -/
  name : String → String
  /-- The new text of a literal. -/
  literal : String → String
  /-- The new text of malformed text. -/
  malformed : String → String
  canonical_name : ∀ text, canonical (name text) = canonical text
  canonical_literal_or : ∀ text, canonical (literal text) = canonical text ∨
    holdsMark text = true ∧ holdsMark (literal text) = true
  canonical_malformed_or : ∀ text, canonical (malformed text) = canonical text ∨
    holdsMark text = true ∧ holdsMark (malformed text) = true
  holdsMark_canonical : ∀ text, holdsMark (canonical text) = holdsMark text

namespace Respelling

variable {canonical : String → String} (r : Respelling canonical)

/-- The respelled lexeme. -/
def apply (l : Lexeme) : Lexeme :=
  match l.kind with
  | .ident => { l with text := r.name l.text }
  | .number => { l with text := r.name l.text }
  | .str => { l with text := r.literal l.text }
  | .error => { l with text := r.malformed l.text }
  | .punct => l
  | .newline => l

/-- The respelled row. -/
def row (ls : List Lexeme) : List Lexeme :=
  ls.map r.apply

/-! ## Single lexemes -/

@[simp] theorem kind_apply (l : Lexeme) : (r.apply l).kind = l.kind := by
  unfold apply
  split <;> rfl

theorem apply_of_punct {l : Lexeme} (h : l.kind = .punct) : r.apply l = l := by
  simp [apply, h]

theorem text_of_ident {l : Lexeme} (h : l.kind = .ident) : (r.apply l).text = r.name l.text := by
  simp [apply, h]

theorem text_of_number {l : Lexeme} (h : l.kind = .number) :
    (r.apply l).text = r.name l.text := by
  simp [apply, h]

/-- A lexeme is a word in both spellings. -/
theorem canonical_text_apply_eq_iff {word : String} (hword : holdsMark word = false)
    (l : Lexeme) : canonical (r.apply l).text = word ↔ canonical l.text = word := by
  have hne (text : String) (ht : holdsMark text = true) : canonical text ≠ word := by
    rintro rfl
    rw [r.holdsMark_canonical, ht] at hword
    cases hword
  have hchange {text' : String} (h : canonical text' = canonical l.text ∨
      holdsMark l.text = true ∧ holdsMark text' = true) :
      canonical text' = word ↔ canonical l.text = word := by
    rcases h with h | ⟨h, h'⟩
    · rw [h]
    · simp [hne _ h, hne _ h']
  unfold apply
  split
  · rw [r.canonical_name]
  · rw [r.canonical_name]
  · exact hchange (r.canonical_literal_or l.text)
  · exact hchange (r.canonical_malformed_or l.text)
  · rfl
  · rfl

theorem contains_canonical_text_apply {words : List String}
    (hwords : ∀ word ∈ words, holdsMark word = false) (l : Lexeme) :
    words.contains (canonical (r.apply l).text) = words.contains (canonical l.text) := by
  rw [Bool.eq_iff_iff, List.contains_iff_mem, List.contains_iff_mem]
  constructor
  · intro h
    rwa [(r.canonical_text_apply_eq_iff (hwords _ h) l).1 rfl]
  · intro h
    rwa [(r.canonical_text_apply_eq_iff (hwords _ h) l).2 rfl]

@[simp] theorem isIdent_apply (l : Lexeme) : (r.apply l).isIdent = l.isIdent := by
  simp [Lexeme.isIdent]

@[simp] theorem isNewline_apply (l : Lexeme) : (r.apply l).isNewline = l.isNewline := by
  simp [Lexeme.isNewline]

@[simp] theorem isError_apply (l : Lexeme) : (r.apply l).isError = l.isError := by
  simp [Lexeme.isError]

@[simp] theorem isPunct_apply (l : Lexeme) (p : String) :
    (r.apply l).isPunct p = l.isPunct p := by
  by_cases h : l.kind = .punct
  · rw [r.apply_of_punct h]
  · simp [Lexeme.isPunct, h]

@[simp] theorem opensGroup_apply (l : Lexeme) : (r.apply l).opensGroup = l.opensGroup := by
  simp [Lexeme.opensGroup]

@[simp] theorem closesGroup_apply (l : Lexeme) : (r.apply l).closesGroup = l.closesGroup := by
  simp [Lexeme.closesGroup]

/-! ## Rows -/

@[simp] theorem row_nil : r.row [] = [] := rfl

@[simp] theorem row_cons (l : Lexeme) (ls : List Lexeme) :
    r.row (l :: ls) = r.apply l :: r.row ls := rfl

@[simp] theorem row_append (ls more : List Lexeme) :
    r.row (ls ++ more) = r.row ls ++ r.row more :=
  List.map_append

@[simp] theorem length_row (ls : List Lexeme) : (r.row ls).length = ls.length :=
  List.length_map _

@[simp] theorem row_eq_nil {ls : List Lexeme} : r.row ls = [] ↔ ls = [] :=
  List.map_eq_nil_iff

@[simp] theorem isEmpty_row (ls : List Lexeme) : (r.row ls).isEmpty = ls.isEmpty :=
  List.isEmpty_map

@[simp] theorem head?_row (ls : List Lexeme) : (r.row ls).head? = ls.head?.map r.apply :=
  List.head?_map

@[simp] theorem tail_row (ls : List Lexeme) : (r.row ls).tail = r.row ls.tail :=
  List.map_tail.symm

@[simp] theorem reverse_row (ls : List Lexeme) : (r.row ls).reverse = r.row ls.reverse :=
  List.map_reverse.symm

@[simp] theorem take_row (n : Nat) (ls : List Lexeme) : (r.row ls).take n = r.row (ls.take n) :=
  List.map_take.symm

@[simp] theorem drop_row (n : Nat) (ls : List Lexeme) : (r.row ls).drop n = r.row (ls.drop n) :=
  List.map_drop.symm

section Tests

variable {p : Lexeme → Bool} (hp : ∀ l, p (r.apply l) = p l)
include hp

theorem any_row (ls : List Lexeme) : (r.row ls).any p = ls.any p := by
  simp [row, Function.comp_def, hp]

theorem all_row (ls : List Lexeme) : (r.row ls).all p = ls.all p := by
  simp [row, Function.comp_def, hp]

theorem takeWhile_row (ls : List Lexeme) : (r.row ls).takeWhile p = r.row (ls.takeWhile p) := by
  simp [row, List.takeWhile_map, Function.comp_def, hp]

theorem dropWhile_row (ls : List Lexeme) : (r.row ls).dropWhile p = r.row (ls.dropWhile p) := by
  simp [row, List.dropWhile_map, Function.comp_def, hp]

theorem filter_row (ls : List Lexeme) : (r.row ls).filter p = r.row (ls.filter p) := by
  simp [row, List.filter_map, Function.comp_def, hp]

end Tests

@[simp] theorem startsWithPunct_row (p : String) (ls : List Lexeme) :
    startsWithPunct p (r.row ls) = startsWithPunct p ls := by
  cases ls <;> simp [startsWithPunct]

@[simp] theorem startsWithIdent_row (ls : List Lexeme) :
    startsWithIdent (r.row ls) = startsWithIdent ls := by
  cases ls <;> simp [startsWithIdent]

/-- A reader that sees the same at corresponding places sees the same at all places. -/
theorem atEachPlace_row {α β : Type} {f : List Lexeme → List Lexeme → List β}
    {g : List Lexeme → List Lexeme → List α} {h : α → β}
    (hf : ∀ before here, f (r.row before) (r.row here) = (g before here).map h)
    (before ls : List Lexeme) :
    atEachPlace f (r.row before) (r.row ls) = (atEachPlace g before ls).map h := by
  induction ls generalizing before with
  | nil => rfl
  | cons l ls ih =>
    rw [row_cons, atEachPlace, atEachPlace, List.map_append, ← hf, ← row_cons, ← row_cons, ih]

@[simp] theorem definition_row {ends : Nat → Lexeme → Bool}
    (hends : ∀ depth l, ends depth (r.apply l) = ends depth l) (depth : Nat) (ls : List Lexeme) :
    definition ends depth (r.row ls) = Prod.map r.row r.row (definition ends depth ls) := by
  induction ls generalizing depth with
  | nil => rfl
  | cons l ls ih =>
    simp only [row_cons, definition, hends, isPunct_apply, ih]
    split <;> rfl

@[simp] theorem splitAlias_row (ls : List Lexeme) :
    splitAlias (r.row ls) = Prod.map (Option.map r.name) r.row (splitAlias ls) := by
  rcases ls with _ | ⟨name, _ | ⟨mark, rest⟩⟩
  · rfl
  · rfl
  · simp only [row_cons, splitAlias, isIdent_apply, isPunct_apply]
    split
    · rename_i h
      have hname : name.kind = .ident := by simp_all [Lexeme.isIdent]
      simp [r.text_of_ident hname]
    · rfl

/-- Where a reader sees related things at corresponding places, it does so at all places. -/
theorem atEachPlace_forall₂ {α β : Type} {R : α → β → Prop}
    {f : List Lexeme → List Lexeme → List α} {g : List Lexeme → List Lexeme → List β}
    (hfg : ∀ before here, List.Forall₂ R (f before here) (g (r.row before) (r.row here)))
    (before ls : List Lexeme) :
    List.Forall₂ R (atEachPlace f before ls) (atEachPlace g (r.row before) (r.row ls)) := by
  induction ls generalizing before with
  | nil => exact .nil
  | cons l ls ih => exact List.rel_append (hfg before (l :: ls)) (ih (l :: before))

/-! ## Names -/

/-- All texts keep their canonical form. -/
structure KeepsCanonical : Prop where
  literal : ∀ text, canonical (r.literal text) = canonical text
  malformed : ∀ text, canonical (r.malformed text) = canonical text

/-- Two names are equal in their canonical form, or both hold a mark and some text changes its
form. -/
def SameName (name name' : String) : Prop :=
  canonical name' = canonical name ∨
    ¬r.KeepsCanonical ∧ holdsMark name = true ∧ holdsMark name' = true

theorem sameName_text_apply (l : Lexeme) : r.SameName l.text (r.apply l).text := by
  unfold apply
  split
  · exact .inl (r.canonical_name _)
  · exact .inl (r.canonical_name _)
  · by_cases h : canonical (r.literal l.text) = canonical l.text
    · exact .inl h
    · exact .inr ⟨fun hr => h (hr.literal _), (r.canonical_literal_or l.text).resolve_left h⟩
  · by_cases h : canonical (r.malformed l.text) = canonical l.text
    · exact .inl h
    · exact .inr ⟨fun hr => h (hr.malformed _), (r.canonical_malformed_or l.text).resolve_left h⟩
  · exact .inl rfl
  · exact .inl rfl

/-- A name without marks is one of the two exactly if it is the other. -/
theorem SameName.canonical_eq_iff {name name' other : String} (h : r.SameName name name')
    (hother : holdsMark other = false ∨ r.KeepsCanonical) :
    canonical name' = canonical other ↔ canonical name = canonical other := by
  rcases h with h | ⟨hr, h, h'⟩
  · rw [h]
  · have hother := hother.resolve_right hr
    have hne {text : String} (ht : holdsMark text = true) : canonical text ≠ canonical other := by
      intro heq
      have hmark := congrArg holdsMark heq
      rw [r.holdsMark_canonical, r.holdsMark_canonical, ht, hother] at hmark
      cases hmark
    simp [hne h, hne h']

/-- The second import is the first one, respelled. -/
structure SameImport (i i' : Import) : Prop where
  path : r.SameName i.path i'.path
  aliasName : i'.aliasName = i.aliasName.map r.name
  first : i'.first = i.first
  last : i'.last = i.last

/-- The second method is the first one, respelled. -/
structure SameMethod (canonical : String → String) (m m' : GenericMethod) : Prop where
  namespaceName : canonical m'.namespaceName = canonical m.namespaceName
  typeName : canonical m'.typeName = canonical m.typeName
  method : canonical m'.method = canonical m.method

/-! ## Brackets and commas -/

@[simp] theorem untilClose_row (b : BracketPair) (depth : Nat) (ls : List Lexeme) :
    b.untilClose depth (r.row ls) = (b.untilClose depth ls).map (Prod.map r.row r.row) := by
  induction ls generalizing depth with
  | nil => rfl
  | cons l ls ih =>
    simp only [row_cons, BracketPair.untilClose, isPunct_apply, ih]
    split
    · simp [Function.comp_def]
    · split
      · cases depth <;> simp [Function.comp_def]
      · simp [Function.comp_def]

@[simp] theorem group?_row (b : BracketPair) (ls : List Lexeme) :
    b.group? (r.row ls) = (b.group? ls).map (Prod.map r.row r.row) := by
  cases ls with
  | nil => rfl
  | cons l ls =>
    simp only [row_cons, BracketPair.group?, isPunct_apply, untilClose_row]
    split <;> rfl

@[simp] theorem enclosing?_row (b : BracketPair) (before : List Lexeme) :
    b.enclosing? (r.row before) = (b.enclosing? before).map (Prod.map r.row r.row) := by
  simp [BracketPair.enclosing?, Function.comp_def]

theorem consFirst_row (l : Lexeme) (pieces : List (List Lexeme)) :
    consFirst (r.apply l) (pieces.map r.row) = (consFirst l pieces).map r.row := by
  cases pieces <;> rfl

@[simp] theorem splitCommas_row (depth : Nat) (ls : List Lexeme) :
    splitCommas depth (r.row ls) = (splitCommas depth ls).map r.row := by
  induction ls generalizing depth with
  | nil => rfl
  | cons l ls ih =>
    simp only [row_cons, splitCommas, opensGroup_apply, closesGroup_apply, isPunct_apply, ih,
      consFirst_row]
    split
    · rfl
    · split
      · rfl
      · split <;> rfl

@[simp] theorem argumentCount_row (inside : List Lexeme) :
    argumentCount (r.row inside) = argumentCount inside := by
  simp [argumentCount, r.all_row r.isNewline_apply]

@[simp] theorem commasBefore_row (depth : Nat) (ls : List Lexeme) :
    commasBefore depth (r.row ls) = commasBefore depth ls := by
  induction ls generalizing depth with
  | nil => rfl
  | cons l ls ih => simp [commasBefore, ih]

@[simp] theorem withoutNewlines_row (ls : List Lexeme) :
    withoutNewlines (r.row ls) = r.row (withoutNewlines ls) :=
  r.filter_row (by simp) ls

/-! ## Levels and element types -/

/-- The respelled level. -/
def level (l : ArrayLevel) : ArrayLevel :=
  ⟨l.sizes.map (Option.map r.row)⟩

@[simp] theorem rank_level (l : ArrayLevel) : (r.level l).rank = l.rank := by
  simp [level, ArrayLevel.rank]

@[simp] theorem hasSizes_level (l : ArrayLevel) : (r.level l).hasSizes = l.hasSizes := by
  simp [level, ArrayLevel.hasSizes, Function.comp_def]

@[simp] theorem hasSizes_comp_level : ArrayLevel.hasSizes ∘ r.level = ArrayLevel.hasSizes :=
  funext r.hasSizes_level

@[simp] theorem any_hasSizes_level (levels : List ArrayLevel) :
    (levels.map r.level).any ArrayLevel.hasSizes = levels.any ArrayLevel.hasSizes := by
  simp

@[simp] theorem ofContents_row (inside : List Lexeme) :
    ArrayLevel.ofContents (r.row inside) = r.level (.ofContents inside) := by
  simp only [ArrayLevel.ofContents, level, splitCommas_row, List.map_map, ArrayLevel.mk.injEq]
  refine List.map_congr_left fun piece _ => ?_
  simp only [Function.comp_apply, withoutNewlines_row]
  cases withoutNewlines piece <;> rfl

theorem arrayLevels_row (b : BracketPair) {isLevel : List Lexeme → Bool}
    (hlevel : ∀ ls, isLevel (r.row ls) = isLevel ls) (ls : List Lexeme) :
    arrayLevels b isLevel (r.row ls) =
      (arrayLevels b isLevel ls).map (Prod.map (List.map r.level) r.row) := by
  fun_induction arrayLevels b isLevel ls with
  | case1 ls hopen hgroup =>
    change (startsWithPunct b.opening ls && isLevel ls) = true at hopen
    rw [arrayLevels_eq, startsWithPunct_row, hlevel, group?_row, hgroup, if_pos hopen]
    rfl
  | case2 ls hopen inside rest hgroup ih =>
    change (startsWithPunct b.opening ls && isLevel ls) = true at hopen
    rw [arrayLevels_eq, startsWithPunct_row, hlevel, group?_row, hgroup, if_pos hopen]
    simp [ih, Function.comp_def]
  | case3 ls hopen =>
    change ¬(startsWithPunct b.opening ls && isLevel ls) = true at hopen
    rw [arrayLevels_eq, startsWithPunct_row, hlevel, if_neg hopen]
    rfl

/-- The respelled element type. -/
def element (t : ElementType) : ElementType :=
  { t with parts := r.row t.parts }

@[simp] theorem ofParts_row (parts : List Lexeme) (isPointer : Bool) :
    ElementType.ofParts (r.row parts) isPointer = r.element (.ofParts parts isPointer) := by
  simp [ElementType.ofParts, element, r.any_row r.isError_apply]

@[simp] theorem element_inferred : r.element .inferred = .inferred := rfl

@[simp] theorem readWith_row (t : ElementType) (ls : List Lexeme) :
    (r.element t).readWith (r.row ls) = r.element (t.readWith ls) := by
  simp only [ElementType.readWith, r.any_row r.isError_apply]
  split <;> rfl

/-! ## Sites -/

/-- The respelled site. -/
def site (s : Site) : Site :=
  { s with
    element := r.element s.element
    allocated := r.level s.allocated
    inner := s.inner.map r.level
    initializer := s.initializer.map fun i => { i with contents := r.row i.contents } }

@[simp] theorem site_shift (n : Nat) (s : Site) : r.site (s.shift n) = (r.site s).shift n := by
  simp [site, Site.shift, Function.comp_def]

@[simp] theorem site_markAttribute (sections : List (Nat × Nat)) (s : Site) :
    r.site (s.markAttribute sections) = (r.site s).markAttribute sections := by
  unfold Site.markAttribute
  exact apply_ite r.site _ _ _

/-- Respelled sites are in the same order. -/
theorem mergeSort_site (sites : List Site) :
    (sites.map r.site).mergeSort Site.comesBefore =
      (sites.mergeSort Site.comesBefore).map r.site :=
  (List.map_mergeSort (f := r.site) fun _ _ _ _ => rfl).symm

/-- The sites that are collected from the places of a respelled row are the respelled sites. -/
theorem collected_row {f g : List Lexeme → List Lexeme → List Site}
    (hfg : ∀ before here, f (r.row before) (r.row here) = (g before here).map r.site)
    (sections : List (Nat × Nat)) (ls : List Lexeme) :
    ((atEachPlace (fun before here =>
      (f before here).map fun s => s.shift before.length) [] (r.row ls)).map
        (Site.markAttribute sections)).mergeSort Site.comesBefore =
      (((atEachPlace (fun before here =>
        (g before here).map fun s => s.shift before.length) [] ls).map
          (Site.markAttribute sections)).mergeSort Site.comesBefore).map r.site := by
  have hplaces := r.atEachPlace_row (f := fun before here =>
      (f before here).map fun s => s.shift before.length)
    (g := fun before here => (g before here).map fun s => s.shift before.length) (h := r.site)
    (fun before here => by simp [hfg, Function.comp_def]) [] ls
  rw [← mergeSort_site, ← r.row_nil, hplaces, List.map_map, List.map_map, r.row_nil]
  congr 2
  funext s
  exact (r.site_markAttribute sections s).symm

/-- The respelled parameter array. -/
def paramArray (p : ParamArray) : ParamArray where
  method := r.name p.method
  fixed := p.fixed
  element := r.element p.element
  allocated := r.level p.allocated
  inner := p.inner.map r.level

@[simp] theorem callSite_paramArray (p : ParamArray) (inside : List Lexeme) :
    (r.paramArray p).callSite (r.row inside) = r.site (p.callSite inside) := by
  simp only [paramArray, ParamArray.callSite, site, length_row]
  rfl

end Respelling

end ZeroAlloc
