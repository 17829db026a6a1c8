import ZeroAlloc.Proofs.Document.Edits
import ZeroAlloc.Proofs.Document.Places
import ZeroAlloc.Proofs.Respelling.CSharp.Declarations
import ZeroAlloc.Proofs.Respelling.VisualBasic.Declarations
import ZeroAlloc.Proofs.Text.Case
set_option autoImplicit false

/-! # Respelled documents

Two documents whose lexemes can be respelled to one row have corresponding sites, findings and
edits: they are at the same indices, with the same verdicts, and differ in the texts of their
element types alone (`findings_forall₂`, `edits_forall₂_of_respelled`). -/

namespace ZeroAlloc

/-- Related lists are related with their members. -/
theorem forall₂_with_mem {α β : Type} {R : α → β → Prop} {l : List α} {l' : List β}
    (h : List.Forall₂ R l l') : List.Forall₂ (fun a b => a ∈ l ∧ b ∈ l' ∧ R a b) l l' := by
  obtain ⟨hlength, hzip⟩ := List.forall₂_iff_zip.1 h
  refine List.forall₂_iff_zip.2 ⟨hlength, fun hab => ?_⟩
  obtain ⟨ha, hb⟩ := List.of_mem_zip hab
  exact ⟨ha, hb, hzip hab⟩

theorem map_eq_of_forall₂ {α β γ : Type} {f : α → γ} {g : β → γ} {l : List α} {l' : List β}
    (h : List.Forall₂ (fun a b => f a = g b) l l') : l.map f = l'.map g := by
  induction h with
  | nil => rfl
  | cons hab _ ih => rw [List.map_cons, List.map_cons, hab, ih]

/-- Lists with one image are related by it. -/
theorem forall₂_of_map_eq {α β γ : Type} {f : α → γ} {g : β → γ} {l : List α} {l' : List β}
    (h : l.map f = l'.map g) : List.Forall₂ (fun a b => f a = g b) l l' := by
  have hmap : List.Forall₂ (fun c d => c = d) (l.map f) (l'.map g) := by
    rw [List.forall₂_eq_eq_eq]
    exact h
  rwa [List.forall₂_map_left_iff, List.forall₂_map_right_iff] at hmap

/-! ## Languages -/

theorem VisualBasic.holdsMark_lowerAscii (text : String) :
    holdsMark (Text.lowerAscii text) = holdsMark text := by
  have hmark (c : Char) : foreignMarks.contains c.toLower = foreignMarks.contains c :=
    Text.FoldsCase.apply_toLower (f := foreignMarks.contains) (by decide) c
  rw [holdsMark, holdsMark, Text.toList_lowerAscii, List.any_map]
  congr 1
  funext c
  exact hmark c

namespace Language

theorem holdsMark_canonicalName (language : Language) (text : String) :
    holdsMark (language.dialect.canonicalName text) = holdsMark text := by
  cases language with
  | csharp => rfl
  | visualBasic => exact VisualBasic.holdsMark_lowerAscii text

variable {language : Language} (r : Respelling language.dialect.canonicalName)

theorem sites_row (ls : List Lexeme) :
    language.sites (r.row ls) = (language.sites ls).map r.site := by
  cases language with
  | csharp => exact CSharp.sites_row r ls
  | visualBasic => exact VisualBasic.sites_row r ls

theorem constants_row (ls : List Lexeme) :
    language.constants (r.row ls) = r.constants (language.constants ls) := by
  cases language with
  | csharp => exact CSharp.constants_row r ls
  | visualBasic => exact VisualBasic.constants_row r ls

theorem length?_row (table : Constants) (size : List Lexeme) :
    language.length? (r.constants table) (r.row size) = language.length? table size := by
  cases language with
  | csharp => exact CSharp.length?_row r table size
  | visualBasic => exact VisualBasic.length?_row r table size

theorem imports_row (ls : List Lexeme) :
    List.Forall₂ r.SameImport (language.imports ls) (language.imports (r.row ls)) := by
  cases language with
  | csharp =>
    have himports : imports csharp (r.row ls) = imports csharp ls := CSharp.imports_row r ls
    rw [himports]
    refine List.forall₂_same.2 fun i _ => ⟨.inl rfl, ?_, rfl, rfl⟩
    cases i.aliasName with
    | none => rfl
    | some name => exact congrArg some (CSharp.name_respelling r name).symm
  | visualBasic => exact VisualBasic.imports_row r ls

theorem genericMethods_row (ls : List Lexeme) :
    List.Forall₂ (Respelling.SameMethod language.dialect.canonicalName)
      (language.genericMethods ls) (language.genericMethods (r.row ls)) := by
  cases language with
  | csharp =>
    have hmethods : genericMethods csharp (r.row ls) = genericMethods csharp ls :=
      CSharp.genericMethods_row r ls
    rw [hmethods]
    exact List.forall₂_same.2 fun m _ => ⟨rfl, rfl, rfl⟩
  | visualBasic => exact VisualBasic.genericMethods_row r ls

/-- Names are equal in the language if their canonical forms are. -/
theorem namesEqual_iff {a b : String} :
    language.namesEqual a b = true ↔
      language.dialect.canonicalName a = language.dialect.canonicalName b := by
  cases language with
  | csharp => exact beq_iff_eq
  | visualBasic => exact decide_eq_true_iff

/-- Whether a namespace is imported. -/
def importsName (language : Language) (ls : List Lexeme) (name : String) : Bool :=
  (language.imports ls).any fun i => i.aliasName.isNone && language.namesEqual i.path name

/-- Whether a factory is declared. -/
def declares (language : Language) (ls : List Lexeme) (factory : Factory) : Bool :=
  (language.genericMethods ls).any fun m =>
    language.namesEqual m.namespaceName factory.namespaceName &&
      language.namesEqual m.typeName factory.typeName &&
      language.namesEqual m.method factory.method

/-- Corresponding lists answer alike. -/
theorem any_eq_of_forall₂ {α β : Type} {R : α → β → Prop} {p : α → Bool} {q : β → Bool}
    (hpq : ∀ {a b}, R a b → p a = q b) {l : List α} {l' : List β} (h : List.Forall₂ R l l') :
    l.any p = l'.any q := by
  induction h with
  | nil => rfl
  | cons hab _ ih => rw [List.any_cons, List.any_cons, hpq hab, ih]

theorem importsName_row (ls : List Lexeme) {name : String}
    (hname : holdsMark name = false ∨ r.KeepsCanonical) :
    language.importsName (r.row ls) name = language.importsName ls name := by
  refine (any_eq_of_forall₂ (fun {i i'} hi => ?_) (imports_row r ls)).symm
  have hpath : language.namesEqual i'.path name = language.namesEqual i.path name := by
    rw [Bool.eq_iff_iff, namesEqual_iff, namesEqual_iff]
    exact hi.path.canonical_eq_iff r hname
  rw [hi.aliasName, Option.isNone_map, hpath]

theorem declares_row (ls : List Lexeme) (factory : Factory) :
    language.declares (r.row ls) factory = language.declares ls factory := by
  refine (any_eq_of_forall₂ (fun {m m'} hm => ?_) (genericMethods_row r ls)).symm
  have hequal {name name' : String} (other : String)
      (h : language.dialect.canonicalName name' = language.dialect.canonicalName name) :
      language.namesEqual name' other = language.namesEqual name other := by
    rw [Bool.eq_iff_iff, namesEqual_iff, namesEqual_iff, h]
  rw [hequal _ hm.namespaceName, hequal _ hm.typeName, hequal _ hm.method]

end Language

/-! ## Sites -/

section Site

variable {language : Language} (r : Respelling language.dialect.canonicalName)

theorem evidence_respelled (s : Site) (table : Constants) :
    (r.site s).evidence language (r.constants table) = s.evidence language table := by
  have hsizes : (r.site s).allocated.sizes = s.allocated.sizes.map (Option.map r.row) := rfl
  have hinitializer : (r.site s).initializer =
      s.initializer.map fun i => { i with contents := r.row i.contents } := rfl
  unfold Site.evidence
  rw [hsizes, hinitializer]
  rcases s.allocated.sizes with _ | ⟨_ | size, sizes⟩
  -- without a size for the outermost level, the initializer decides
  case cons.some =>
    rw [List.map_cons, Option.map_some]
    dsimp only
    rw [Language.length?_row]
  all_goals
    cases s.initializer with
    | none => rfl
    | some i =>
      dsimp only [Option.map_some]
      rw [r.isEmpty_row]
      rfl

theorem decision_respelled (s : Site) (table : Constants) (policy : Policy) :
    (r.site s).decision language (r.constants table) policy =
      s.decision language table policy := by
  have hrank : (r.site s).allocated.rank = s.allocated.rank := r.rank_level _
  unfold Site.decision
  rw [evidence_respelled, hrank]
  rfl

/-- The type argument for a site whose element type is written so. -/
theorem typeArgument?_eq (s : Site) :
    language.typeArgument? s =
      if s.element.isPointer || !s.element.resolved then none
      else some (ElementType.spell s.element.parts ++
        String.join (s.inner.map fun level => language.levelText level.rank)) := by
  unfold Language.typeArgument? ElementType.text?
  split <;> rfl

/-- Sites that are respelled to one have levels of the same ranks. -/
theorem levelTexts_eq_of_respelled {r r' : Respelling language.dialect.canonicalName} {s s' : Site}
    (hsite : r.site s = r'.site s') :
    (s'.inner.map fun level => language.levelText level.rank) =
      s.inner.map fun level => language.levelText level.rank := by
  have hinner : s'.inner.map r'.level = s.inner.map r.level := (congrArg Site.inner hsite).symm
  have htexts (r : Respelling language.dialect.canonicalName) (levels : List ArrayLevel) :
      (levels.map fun level => language.levelText level.rank) =
        (levels.map r.level).map fun level => language.levelText level.rank := by
    simp [Function.comp_def]
  rw [htexts r', hinner, ← htexts r]

end Site

/-! ## Documents -/

namespace Document

section Same

variable {language : Language}

/-- The two findings report corresponding sites, which are respelled to one, on the same
evidence. -/
structure FindsSame (r r' : Respelling language.dialect.canonicalName) (f f' : Finding) : Prop where
  index : f'.index = f.index
  evidence : f'.evidence = f.evidence
  site : r.site f.site = r'.site f'.site

/-- The edits put in the calls for corresponding findings, at the same tokens. -/
structure FixesSame (r r' : Respelling language.dialect.canonicalName) (factory : Factory)
    (doc other : Document) (f f' : Finding) (e e' : Edit) : Prop where
  findings : FindsSame r r' f f'
  mem_sites : f.site ∈ doc.sites
  mem_sites' : f'.site ∈ other.sites
  typeArgument : language.typeArgument? f.site = some f.typeArgument
  typeArgument' : language.typeArgument? f'.site = some f'.typeArgument
  place : e.StandsAt doc f.site.editPlace
  place' : e'.StandsAt other f.site.editPlace
  replacement : e.replacement = f.site.origin.separator ++ doc.replacement factory f
  replacement' : e'.replacement = f.site.origin.separator ++ other.replacement factory f'

end Same

section Read

variable (language : Language) (path path' : String) {source source' : String}
  {r r' : Respelling language.dialect.canonicalName}
  (h : r'.row (lexemes (Lexis.tokenize language.rules source')) =
    r.row (lexemes (Lexis.tokenize language.rules source)))
include h

theorem hasErrors_eq_of_respelled : (read language path' source').hasErrors =
    (read language path source).hasErrors := by
  have hany (source path : String) : (read language path source).hasErrors =
      (lexemes (Lexis.tokenize language.rules source)).any Lexeme.isError := by
    rw [hasErrors, lexemes, List.any_map]
    exact List.any_toArray
  rw [hany, hany, ← r'.any_row r'.isError_apply, h, r.any_row r.isError_apply]

theorem sites_forall₂ :
    List.Forall₂ (fun s s' => s ∈ (read language path source).sites ∧
        s' ∈ (read language path' source').sites ∧ r.site s = r'.site s')
      (read language path source).sites (read language path' source').sites := by
  refine forall₂_with_mem (forall₂_of_map_eq ?_)
  change (language.sites _).map r.site = (language.sites _).map r'.site
  rw [← Language.sites_row, ← Language.sites_row, h]

theorem constants_eq_of_respelled : r'.constants (read language path' source').constants =
    r.constants (read language path source).constants := by
  change r'.constants (language.constants _) = r.constants (language.constants _)
  rw [← Language.constants_row, ← Language.constants_row, h]

theorem evidence_eq_of_respelled {s s' : Site} (hsite : r.site s = r'.site s') :
    s'.evidence language (read language path' source').constants =
      s.evidence language (read language path source).constants := by
  rw [← evidence_respelled r', constants_eq_of_respelled language path path' h, ← hsite,
    evidence_respelled]

theorem decision_eq_of_respelled {s s' : Site} (hsite : r.site s = r'.site s') (policy : Policy) :
    s'.decision language (read language path' source').constants policy =
      s.decision language (read language path source).constants policy := by
  rw [← decision_respelled r', constants_eq_of_respelled language path path' h, ← hsite,
    decision_respelled]

theorem importsNamespace_eq_of_respelled {name : String}
    (hname : holdsMark name = false ∨ r.KeepsCanonical ∧ r'.KeepsCanonical) :
    (read language path' source').importsNamespace name =
      (read language path source).importsNamespace name := by
  change language.importsName _ name = language.importsName _ name
  rw [← Language.importsName_row r' _ (hname.imp_right And.right), h,
    Language.importsName_row r _ (hname.imp_right And.left)]

theorem declaresFactory_eq_of_respelled (factory : Factory) :
    (read language path' source').declaresFactory factory =
      (read language path source).declaresFactory factory := by
  change language.declares _ factory = language.declares _ factory
  rw [← Language.declares_row r', h, Language.declares_row r]

theorem findings_forall₂ (policy : Policy) :
    List.Forall₂ (fun f f' => f ∈ (read language path source).findings policy ∧
        f' ∈ (read language path' source').findings policy ∧ FindsSame r r' f f')
      ((read language path source).findings policy)
      ((read language path' source').findings policy) := by
  have herrors := hasErrors_eq_of_respelled language path path' h
  have hsites : (read language path source).sites.zipIdx.map (Prod.map r.site id) =
      (read language path' source').sites.zipIdx.map (Prod.map r'.site id) := by
    rw [← List.zipIdx_map, ← List.zipIdx_map]
    change ((language.sites _).map r.site).zipIdx = ((language.sites _).map r'.site).zipIdx
    rw [← Language.sites_row, ← Language.sites_row, h]
  refine forall₂_with_mem ?_
  unfold findings
  rw [herrors]
  split
  · refine List.rel_filterMap ?_ (forall₂_of_map_eq hsites)
    rintro ⟨s, index⟩ ⟨s', index'⟩ heq
    obtain ⟨hsite, rfl⟩ : r.site s = r'.site s' ∧ index = index' := Prod.mk.inj heq
    have hdecision := decision_eq_of_respelled language path path' h hsite policy
    have hevidence := evidence_eq_of_respelled language path path' h hsite
    have helement : r.element s.element = r'.element s'.element := congrArg Site.element hsite
    have hpointer : s'.element.isPointer = s.element.isPointer :=
      (congrArg ElementType.isPointer helement).symm
    have hresolved : s'.element.resolved = s.element.resolved :=
      (congrArg ElementType.resolved helement).symm
    change Option.Rel (FindsSame r r')
      (if (s.decision language (read language path source).constants policy).isFlag then
        (language.typeArgument? s).map (Finding.mk index s _) else none)
      (if (s'.decision language (read language path' source').constants policy).isFlag then
        (language.typeArgument? s').map (Finding.mk index s' _) else none)
    rw [hdecision, typeArgument?_eq, typeArgument?_eq, hpointer, hresolved]
    split
    · split
      · exact .none
      · exact .some ⟨rfl, hevidence, hsite⟩
    · exact .none
  · exact .nil

omit h in
/-- The edits for corresponding findings stand at the same tokens. -/
theorem edits_forall₂_of_respelled {policy : Policy} {factory : Factory} {fs fs' : List Finding}
    (hfs : List.Forall₂ (fun f f' => f ∈ (read language path source).findings policy ∧
      f' ∈ (read language path' source').findings policy ∧ FindsSame r r' f f') fs fs') :
    List.Forall₂ (fun e e' => ∃ f f', FixesSame r r' factory (read language path source)
        (read language path' source') f f' e e')
      ((read language path source).edits factory fs)
      ((read language path' source').edits factory fs') := by
  refine (edits_forall₂ (S := fun e e' => ∃ f f', FixesSame r r' factory
    (read language path source) (read language path' source') f f' e e')
    (fun {f f'} hf => ?_) hfs).imp fun _ _ he => he.2
  obtain ⟨hf, hf', hsame⟩ := hf
  obtain ⟨hsite, _, hargument⟩ := of_mem_findings hf
  obtain ⟨hsite', _, hargument'⟩ := of_mem_findings hf'
  have hfirst : f'.site.first = f.site.first := (congrArg Site.first hsame.site).symm
  have hlast : f'.site.last = f.site.last := (congrArg Site.last hsame.site).symm
  have horigin : f'.site.origin = f.site.origin := (congrArg Site.origin hsame.site).symm
  have hplaces : f'.site.editPlace = f.site.editPlace := by
    rw [Site.editPlace, Site.editPlace, horigin, hfirst, hlast]
  have hend {path source : String} {s : Site} (hs : s ∈ (read language path source).sites) :
      s.first ≤ s.last ∧ s.last < (read language path source).tokens.size :=
    ⟨(Language.liesIn_of_mem_sites hs).first_le_last, by simpa using last_lt_length_of_mem_sites hs⟩
  obtain ⟨e, he, hplace, hreplacement, _⟩ := exists_edit?_standsAt (read language path source)
    factory (hend hsite).1 (hend hsite).2
    (Language.typeArgument?_ne_empty (isProper_of_mem_sites hsite).element hargument)
  obtain ⟨e', he', hplace', hreplacement', _⟩ := exists_edit?_standsAt
    (read language path' source') factory (hend hsite').1 (hend hsite').2
    (Language.typeArgument?_ne_empty (isProper_of_mem_sites hsite').element hargument')
  rw [hplaces] at hplace'
  rw [horigin] at hreplacement'
  rw [he, he']
  exact .some ⟨⟨_, hplace, hplace'⟩, f, f', hsame, hsite, hsite', hargument, hargument', hplace,
    hplace', hreplacement, hreplacement'⟩

end Read

end Document

end ZeroAlloc
