import Mathlib.Data.List.DropRight
import ZeroAlloc.Report.Sarif
set_option autoImplicit false

/-! # Files in the report

A text that is read as a path has the pieces between its slashes (`FilePath.pieces_parse`), and what
is left of a path below a base has the components of the path behind those of the base
(`FilePath.exists_below?`).

The report names a file below the examined path by what its path has behind that one, with slashes
for backslashes. The components of this name are those of the path, where a backslash separates
names like a slash does (`filterMap_part?_relativeUri`). So the name leads back to the file if none
of its names has a backslash, and only then, and two files share a name only if they differ in
nothing else (`tellsFile`). -/

namespace ZeroAlloc

namespace FilePath

variable {base p : FilePath} {piece : List Char} {pieces : List (List Char)}

/-- Whether the path has the components of the base and more behind them. -/
def IsAbove (base p : FilePath) : Prop :=
  base.parts <+: p.parts ∧ base.parts ≠ p.parts

instance (base p : FilePath) : Decidable (base.IsAbove p) :=
  inferInstanceAs (Decidable (_ ∧ _))

/-- The components of the path behind as many as the base has. -/
def partsBelow (base p : FilePath) : List PathPart :=
  p.parts.drop base.parts.length

theorem IsAbove.parts_append_partsBelow (h : base.IsAbove p) :
    base.parts ++ base.partsBelow p = p.parts := by
  rw [partsBelow, ← List.prefix_iff_eq_append.1 h.1]
  simp

theorem IsAbove.partsBelow_ne_nil (h : base.IsAbove p) : base.partsBelow p ≠ [] := by
  intro hnil
  have hparts := h.parts_append_partsBelow
  rw [hnil, List.append_nil] at hparts
  exact h.2 hparts

/-! ## Texts and pieces -/

theorem splitSlashes_eq_modifyHead (piece cs : List Char) :
    splitSlashes piece cs = (cs.splitOn '/').modifyHead (piece.reverse ++ ·) := by
  induction cs generalizing piece with
  | nil => simp [splitSlashes]
  | cons c cs ih =>
    rw [List.splitOn_cons_eq_if_modifyHead]
    by_cases hc : c = '/'
    · subst hc
      rw [splitSlashes, ih, if_pos (beq_self_eq_true _), List.modifyHead_cons, List.append_nil]
      exact congrArg _ (congrFun List.modifyHead_id _)
    · rw [if_neg (by simpa using hc), List.modifyHead_modifyHead, splitSlashes, ih]
      · congr 1
        funext rest
        simp
      · exact hc

@[simp]
theorem pieces_parse (text : String) : (parse text).pieces = text.toList.splitOn '/' := by
  rw [parse, splitSlashes_eq_modifyHead]
  exact congrFun List.modifyHead_id _

/-- The pieces between separators have no separator. -/
theorem notMem_of_mem_splitOn {c : Char} {cs : List Char} (h : piece ∈ cs.splitOn c) :
    c ∉ piece := by
  induction cs generalizing piece with
  | nil =>
    rw [List.splitOn_nil, List.mem_singleton] at h
    simp [h]
  | cons d cs ih =>
    rw [List.splitOn_cons_eq_if_modifyHead] at h
    obtain ⟨first, rest, hsplit⟩ := List.exists_cons_of_ne_nil (List.splitOn_ne_nil c cs)
    rw [hsplit] at h ih
    split_ifs at h with hd
    · obtain rfl | h := List.mem_cons.1 h
      · exact List.not_mem_nil
      · exact ih h
    · obtain rfl | h := List.mem_cons.1 h
      · have hdc : c ≠ d := fun hcd => hd (by simp [hcd])
        simpa [hdc] using ih List.mem_cons_self
      · exact ih (List.mem_cons_of_mem _ h)

theorem parse_text (hne : p.pieces ≠ []) (h : ∀ piece ∈ p.pieces, '/' ∉ piece) :
    parse p.text = p := by
  have hpieces : (parse p.text).pieces = p.pieces := by
    rw [pieces_parse, text, String.toList_ofList, List.splitOn_intercalate '/' h hne]
  exact congrArg mk hpieces

/-! ## Components -/

theorem isIdle_iff : isIdle piece = true ↔ piece = [] ∨ piece = ['.'] := by
  rw [isIdle, part?]
  split_ifs with hidle habove
  · simpa using hidle
  · simpa using hidle
  · simpa using hidle

theorem isIdle_eq_false_iff : isIdle piece = false ↔ ∃ part, part? piece = some part := by
  rw [isIdle, ← Option.isSome_iff_exists, Option.isNone_eq_false_iff]

theorem pieceOf_of_part?_eq_some {part : PathPart} (h : part? piece = some part) :
    pieceOf part = piece := by
  rw [part?] at h
  split_ifs at h with hidle habove
  · obtain rfl := Option.some_inj.1 h
    exact (eq_of_beq habove).symm
  · obtain rfl := Option.some_inj.1 h
    exact String.toList_ofList

theorem firstPart?_cons (h : isIdle piece = false) (rest : List (List Char)) :
    firstPart? (piece :: rest) = part? piece := by
  have hidle := mt isIdle_iff.2 (Bool.not_eq_true _ ▸ h)
  rw [not_or] at hidle
  unfold firstPart?
  split
  · next heq => exact absurd (List.cons.inj heq).1 hidle.1
  · next heq => exact absurd (List.cons.inj heq).1 hidle.2
  · next heq => rw [(List.cons.inj heq).1]
  · next heq => exact absurd heq (List.cons_ne_nil _ _)

/-- A piece that is a component anywhere is one at the start of a path too. -/
theorem parts_eq_filterMap (h : ∀ piece ∈ pieces.head?, isIdle piece = false) :
    (FilePath.mk pieces).parts = pieces.filterMap part? := by
  cases pieces with
  | nil => rfl
  | cons piece rest =>
    have hpart := h piece rfl
    obtain ⟨part, hsome⟩ := isIdle_eq_false_iff.1 hpart
    rw [parts, firstPart?_cons hpart, List.filterMap_cons_some hsome, hsome]
    rfl

/-- Each component is spelled by one of the pieces. -/
theorem pieceOf_mem_pieces {part : PathPart} (h : part ∈ p.parts) : pieceOf part ∈ p.pieces := by
  obtain ⟨pieces⟩ := p
  rw [parts, List.mem_append, Option.mem_toList] at h
  obtain hfirst | hrest := h
  · unfold firstPart? at hfirst
    split at hfirst
    · next heq =>
      obtain rfl := Option.some_inj.1 hfirst
      exact heq ▸ List.mem_cons_self
    · next heq =>
      obtain rfl := Option.some_inj.1 hfirst
      exact heq ▸ List.mem_cons_self
    · next heq => exact heq ▸ pieceOf_of_part?_eq_some hfirst ▸ List.mem_cons_self
    · exact absurd hfirst (Option.not_mem_none _)
  · obtain ⟨piece, hpiece, hsome⟩ := List.mem_filterMap.1 hrest
    exact pieceOf_of_part?_eq_some hsome ▸ List.mem_of_mem_tail hpiece

/-- Only a path without text does not start with a component. -/
theorem pieces_of_firstPart?_eq_none (h : firstPart? pieces = none) :
    pieces = [] ∨ pieces = [[]] := by
  cases pieces with
  | nil => exact .inl rfl
  | cons piece rest =>
    cases hidle : isIdle piece with
    | false =>
      obtain ⟨part, hsome⟩ := isIdle_eq_false_iff.1 hidle
      rw [firstPart?_cons hidle, hsome] at h
      exact absurd h (Option.some_ne_none _)
    | true =>
      obtain rfl | rfl := isIdle_iff.1 hidle
      · cases rest with
        | nil => exact .inr rfl
        | cons second rest => exact absurd h (Option.some_ne_none _)
      · exact absurd h (Option.some_ne_none _)

theorem eq_empty_of_parts_parse_eq_nil {text : String} (h : (parse text).parts = []) :
    text = "" := by
  have hfirst : firstPart? (parse text).pieces = none := by
    rw [parts, List.append_eq_nil_iff] at h
    exact Option.toList_eq_nil_iff.1 h.1
  rw [pieces_parse] at hfirst
  obtain hnil | hnil := pieces_of_firstPart?_eq_none hfirst
  · exact absurd hnil (List.splitOn_ne_nil _ _)
  · have hjoin : ['/'].intercalate (text.toList.splitOn '/') = text.toList :=
      List.intercalate_splitOn '/'
    rw [hnil] at hjoin
    exact String.toList_eq_nil_iff.1 hjoin.symm

/-! ## What is left of a path -/

theorem filterMap_part?_dropWhile (pieces : List (List Char)) :
    (pieces.dropWhile isIdle).filterMap part? = pieces.filterMap part? := by
  induction pieces with
  | nil => rfl
  | cons piece pieces ih =>
    rw [List.dropWhile_cons]
    split_ifs with hidle
    · rw [ih, List.filterMap_cons_none (by simpa [isIdle] using hidle)]
    · rfl

theorem filterMap_part?_trimIdle (pieces : List (List Char)) :
    (trimIdle pieces).filterMap part? = pieces.filterMap part? := by
  rw [trimIdle, List.filterMap_reverse, filterMap_part?_dropWhile, List.filterMap_reverse,
    List.reverse_reverse, filterMap_part?_dropWhile]

/-- Pieces with no idle ones at their ends do not start with an idle one. -/
theorem isIdle_of_mem_head?_trimIdle (h : piece ∈ (trimIdle pieces).head?) :
    isIdle piece = false := by
  have hfront : trimIdle pieces <+: pieces.dropWhile isIdle :=
    List.rdropWhile_prefix isIdle _
  obtain ⟨back, hback⟩ := hfront
  obtain ⟨rest, hrest⟩ : ∃ rest, trimIdle pieces = piece :: rest := by
    cases htrim : trimIdle pieces with
    | nil => simp [htrim] at h
    | cons first rest => exact ⟨rest, by simpa [htrim] using h⟩
  rw [hrest, List.cons_append] at hback
  have hhead := List.head?_dropWhile_not isIdle pieces
  rw [← hback] at hhead
  simpa using hhead

theorem filterMap_part?_dropParts (count : Nat) (pieces : List (List Char)) :
    (dropParts count pieces).filterMap part? = (pieces.filterMap part?).drop count := by
  fun_induction dropParts count pieces with
  | case1 pieces => rfl
  | case2 count => rfl
  | case3 count piece pieces hidle ih =>
    rw [ih, List.filterMap_cons_none (by simpa [isIdle] using hidle)]
  | case4 count piece pieces hidle ih =>
    obtain ⟨part, hsome⟩ := isIdle_eq_false_iff.1 (by simpa using hidle)
    rw [ih, List.filterMap_cons_some hsome, List.drop_succ_cons]

theorem mem_of_mem_dropParts {count : Nat} (h : piece ∈ dropParts count pieces) :
    piece ∈ pieces := by
  fun_induction dropParts count pieces with
  | case1 pieces => exact h
  | case2 count => exact h
  | case3 count first pieces hidle ih => exact List.mem_cons_of_mem _ (ih h)
  | case4 count first pieces hidle ih => exact List.mem_cons_of_mem _ (ih h)

theorem mem_of_mem_trimIdle (h : piece ∈ trimIdle pieces) : piece ∈ pieces :=
  List.dropWhile_subset _ ((List.rdropWhile_prefix isIdle _).subset h)

/-- The rest of a path below a base with components. Its pieces are some of those of the path, and
they start with a component. -/
theorem exists_below? (h : base.IsAbove p) (hne : base.parts ≠ []) :
    ∃ rest, base.below? p = some ⟨rest⟩ ∧ rest.filterMap part? = base.partsBelow p ∧
      (∀ piece ∈ rest.head?, isIdle piece = false) ∧ ∀ piece ∈ rest, piece ∈ p.pieces := by
  obtain ⟨first, names, hbase⟩ := List.exists_cons_of_ne_nil hne
  refine ⟨trimIdle (dropParts names.length p.pieces.tail), ?_, ?_, ?_, ?_⟩
  · rw [below?, if_pos (List.isPrefixOf_iff_prefix.2 h.1), hbase]
    rfl
  · rw [filterMap_part?_trimIdle, filterMap_part?_dropParts, partsBelow, hbase, parts]
    cases hfirst : firstPart? p.pieces with
    | some part => rfl
    | none =>
      have hnil : p.pieces.tail = [] := by
        obtain hpieces | hpieces := pieces_of_firstPart?_eq_none hfirst
        all_goals rw [hpieces]; rfl
      rw [hnil]
      simp
  · intro piece hpiece
    exact isIdle_of_mem_head?_trimIdle hpiece
  · intro piece hpiece
    exact List.mem_of_mem_tail (mem_of_mem_dropParts (mem_of_mem_trimIdle hpiece))

end FilePath

namespace Report.Sarif

variable {base file : String}

/-- The components that a row of components is read as where a backslash separates names too. -/
def slashedParts (parts : List PathPart) : List PathPart :=
  parts.flatMap fun part => ((FilePath.pieceOf part).splitOn '\\').filterMap FilePath.part?

/-- No name among the components has a backslash. -/
def IsPlain (parts : List PathPart) : Prop :=
  ∀ part ∈ parts, '\\' ∉ FilePath.pieceOf part

/-! ## Slashes for backslashes -/

/-- Slashes and backslashes separate the same pieces, whichever are looked for first. -/
theorem splitOn_withSlashes (text : String) :
    (withSlashes text).toList.splitOn '/' = (text.toList.splitOn '/').flatMap (·.splitOn '\\') := by
  rw [withSlashes, String.toList_ofList]
  induction text.toList with
  | nil => rfl
  | cons c cs ih =>
    obtain ⟨first, rest, hsplit⟩ := List.exists_cons_of_ne_nil (List.splitOn_ne_nil '/' cs)
    obtain ⟨part, parts, hpart⟩ := List.exists_cons_of_ne_nil (List.splitOn_ne_nil '\\' first)
    rw [List.map_cons, List.splitOn_cons_eq_if_modifyHead, List.splitOn_cons_eq_if_modifyHead, ih,
      hsplit]
    by_cases hslash : c = '/'
    · subst hslash
      simp [List.splitOn_nil]
    · by_cases hback : c = '\\'
      · subst hback
        simp [List.splitOn_cons_eq_if_modifyHead]
      · simp [hslash, hback, List.splitOn_cons_eq_if_modifyHead, hpart]

/-- A piece that is no component holds none either where backslashes separate names. -/
theorem filterMap_splitOn_of_isIdle {piece : List Char} (h : FilePath.isIdle piece = true) :
    (piece.splitOn '\\').filterMap FilePath.part? = [] := by
  obtain rfl | rfl := FilePath.isIdle_iff.1 h
  · rfl
  · rfl

theorem filterMap_flatMap_splitOn (pieces : List (List Char)) :
    (pieces.flatMap (·.splitOn '\\')).filterMap FilePath.part? =
      slashedParts (pieces.filterMap FilePath.part?) := by
  induction pieces with
  | nil => rfl
  | cons piece pieces ih =>
    rw [List.flatMap_cons, List.filterMap_append, ih]
    cases hidle : FilePath.isIdle piece with
    | true =>
      rw [filterMap_splitOn_of_isIdle hidle,
        List.filterMap_cons_none (by simpa [FilePath.isIdle] using hidle)]
      rfl
    | false =>
      obtain ⟨part, hsome⟩ := FilePath.isIdle_eq_false_iff.1 hidle
      rw [List.filterMap_cons_some hsome, slashedParts, slashedParts, List.flatMap_cons,
        FilePath.pieceOf_of_part?_eq_some hsome]

/-! ## Names of files below the base -/

/-- The name of a file is the rest of its path, which starts with a component. -/
theorem exists_relativeUri (hne : base ≠ "") (h : (FilePath.parse base).IsAbove (.parse file)) :
    ∃ rest : FilePath, relativeUri file base = withSlashes rest.text ∧
      rest.text.toList.splitOn '/' = rest.pieces ∧
      rest.pieces.filterMap FilePath.part? = (FilePath.parse base).partsBelow (.parse file) ∧
      ∀ piece ∈ rest.pieces.head?, FilePath.isIdle piece = false := by
  have hparts : (FilePath.parse base).parts ≠ [] :=
    fun hnil => hne (FilePath.eq_empty_of_parts_parse_eq_nil hnil)
  obtain ⟨rest, hbelow, hnames, hhead, hmem⟩ := FilePath.exists_below? h hparts
  refine ⟨⟨rest⟩, ?_, ?_, hnames, hhead⟩
  · have hsame : (FilePath.parse file).same (.parse base) = false :=
      beq_eq_false_iff_ne.2 h.2.symm
    rw [relativeUri, if_neg (by simpa using hne)]
    simp only [hsame, hbelow, Bool.false_eq_true, if_false]
  · have hrest : rest ≠ [] := by
      rintro rfl
      exact h.partsBelow_ne_nil hnames.symm
    rw [← FilePath.pieces_parse, FilePath.parse_text hrest]
    intro piece hpiece
    have hfile := hmem piece hpiece
    rw [FilePath.pieces_parse] at hfile
    exact FilePath.notMem_of_mem_splitOn hfile

/-- Between the slashes of a name stand the components of the file below the base, where
backslashes separate names too. -/
theorem filterMap_part?_relativeUri (hne : base ≠ "")
    (h : (FilePath.parse base).IsAbove (.parse file)) :
    (FilePath.parse (relativeUri file base)).pieces.filterMap FilePath.part? =
      slashedParts ((FilePath.parse base).partsBelow (.parse file)) := by
  obtain ⟨rest, huri, hsplit, hnames, -⟩ := exists_relativeUri hne h
  rw [huri, FilePath.pieces_parse, splitOn_withSlashes, hsplit, filterMap_flatMap_splitOn, hnames]

theorem splitOn_of_notMem {c : Char} {cs : List Char} (h : c ∉ cs) : cs.splitOn c = [cs] := by
  have hone : ([c].intercalate [cs]).splitOn c = [cs] :=
    List.splitOn_intercalate c (by simpa using h) (List.cons_ne_nil _ _)
  rwa [List.intercalate_singleton] at hone

/-- Below a base, the name of a file has the components of the file if these are plain. -/
theorem parts_relativeUri_of_isPlain (hne : base ≠ "")
    (h : (FilePath.parse base).IsAbove (.parse file))
    (hplain : IsPlain ((FilePath.parse base).partsBelow (.parse file))) :
    (FilePath.parse (relativeUri file base)).parts =
      (FilePath.parse base).partsBelow (.parse file) := by
  obtain ⟨rest, huri, hsplit, hnames, hhead⟩ := exists_relativeUri hne h
  have hpieces : rest.pieces.flatMap (·.splitOn '\\') = rest.pieces := by
    conv_rhs => rw [← List.flatMap_singleton' rest.pieces]
    refine List.flatMap_congr fun piece hpiece => splitOn_of_notMem ?_
    cases hidle : FilePath.isIdle piece with
    | true =>
      obtain rfl | rfl := FilePath.isIdle_iff.1 hidle
      · exact List.not_mem_nil
      · decide
    | false =>
      obtain ⟨part, hsome⟩ := FilePath.isIdle_eq_false_iff.1 hidle
      rw [← FilePath.pieceOf_of_part?_eq_some hsome]
      exact hplain part (hnames ▸ List.mem_filterMap.2 ⟨piece, hpiece, hsome⟩)
  have hparse : FilePath.parse (relativeUri file base) = rest := by
    refine congrArg FilePath.mk (Eq.trans (FilePath.pieces_parse _) ?_)
    rw [huri, splitOn_withSlashes, hsplit, hpieces]
  rw [hparse, ← hnames]
  exact FilePath.parts_eq_filterMap hhead

/-- A name has no backslash, so only plain components are those of a name. -/
theorem isPlain_parts_relativeUri (hne : base ≠ "")
    (h : (FilePath.parse base).IsAbove (.parse file)) :
    IsPlain (FilePath.parse (relativeUri file base)).parts := by
  obtain ⟨rest, huri, -⟩ := exists_relativeUri hne h
  intro part hpart
  have hpiece := FilePath.pieceOf_mem_pieces hpart
  rw [huri, FilePath.pieces_parse, splitOn_withSlashes, List.mem_flatMap] at hpiece
  obtain ⟨between, -, hpiece⟩ := hpiece
  exact FilePath.notMem_of_mem_splitOn hpiece

/-- The name of a file without an examined path is the path of the file. -/
theorem relativeUri_empty (file : String) : relativeUri file "" = file :=
  if_pos rfl

/-- What the name of a file in the report tells of the file. -/
structure TellsFile (base file : String) : Prop where
  /-- The name leads from the base to the file, unless a backslash in it was replaced. -/
  returns : (FilePath.parse base).parts ++ (FilePath.parse (relativeUri file base)).parts =
      (FilePath.parse file).parts ↔
    base = "" ∨ IsPlain ((FilePath.parse base).partsBelow (.parse file))
  /-- Files that share a name differ in what separates their names only. -/
  shares : ∀ other, (FilePath.parse base).IsAbove (.parse other) →
    (FilePath.parse file).parts ≠ (FilePath.parse other).parts →
    relativeUri file base = relativeUri other base →
    base ≠ "" ∧ slashedParts ((FilePath.parse base).partsBelow (.parse file)) =
      slashedParts ((FilePath.parse base).partsBelow (.parse other))
  /-- Files whose own names have no backslash do not share a name. -/
  distinguishes : ∀ other, (FilePath.parse base).IsAbove (.parse other) →
    (FilePath.parse file).parts ≠ (FilePath.parse other).parts →
    IsPlain ((FilePath.parse base).partsBelow (.parse file)) →
    IsPlain ((FilePath.parse base).partsBelow (.parse other)) →
    relativeUri file base ≠ relativeUri other base

/-- The name of a file below the examined path tells the file apart from those that backslashes for
slashes do not make of it, and leads back to it if none of the components has a backslash. -/
theorem tellsFile (h : (FilePath.parse base).IsAbove (.parse file)) : TellsFile base file := by
  have hempty : FilePath.parse "" = ⟨[[]]⟩ := rfl
  have hback (other : String) (hother : (FilePath.parse base).IsAbove (.parse other))
      (hplain : base = "" ∨ IsPlain ((FilePath.parse base).partsBelow (.parse other))) :
      (FilePath.parse base).parts ++ (FilePath.parse (relativeUri other base)).parts =
        (FilePath.parse other).parts := by
    by_cases hne : base = ""
    · subst hne
      rw [relativeUri_empty, hempty]
      rfl
    · rw [parts_relativeUri_of_isPlain hne hother (hplain.resolve_left hne),
        hother.parts_append_partsBelow]
  constructor
  case returns =>
    refine ⟨fun hparts => ?_, hback file h⟩
    by_contra! hnot
    rw [← h.parts_append_partsBelow] at hparts
    exact hnot.2 (List.append_cancel_left hparts ▸ isPlain_parts_relativeUri hnot.1 h)
  case shares =>
    intro other hother hdiffer huri
    by_cases hne : base = ""
    · subst hne
      rw [relativeUri_empty, relativeUri_empty] at huri
      exact absurd (congrArg (fun text => (FilePath.parse text).parts) huri) hdiffer
    · refine ⟨hne, ?_⟩
      rw [← filterMap_part?_relativeUri hne h, huri, filterMap_part?_relativeUri hne hother]
  case distinguishes =>
    intro other hother hdiffer hplain hplain' huri
    refine hdiffer ?_
    rw [← hback file h (.inr hplain), huri, hback other hother (.inr hplain')]

theorem tellsFile_twoDirectories :
    (FilePath.parse "/src").IsAbove (.parse "/src//lib/./A.cs") ∧
      TellsFile "/src" "/src//lib/./A.cs" :=
  ⟨by decide, tellsFile (by decide)⟩

/-- A file whose name has a backslash goes by the name of a file in a directory. -/
theorem not_forall_relativeUri_ne :
    ¬ ∀ base file other : String, (FilePath.parse base).IsAbove (.parse file) →
      (FilePath.parse base).IsAbove (.parse other) →
      (FilePath.parse file).parts ≠ (FilePath.parse other).parts →
      relativeUri file base ≠ relativeUri other base ∧
        (FilePath.parse base).parts ++ (FilePath.parse (relativeUri file base)).parts =
          (FilePath.parse file).parts := by
  intro hall
  have hnames := hall "/src" "/src/a\\b.cs" "/src/a/b.cs" (by decide) (by decide) (by decide)
  exact hnames.1 (by decide +kernel)

end Report.Sarif

end ZeroAlloc
