import ZeroAlloc.CSharp.Declaration
import ZeroAlloc.Proofs.Directive
set_option autoImplicit false

/-! # Import directives of C#

Directives at the start of a file are read one by one: each that is not static imports its name,
without the mark `global::` and with the name that it gives to it. What follows them imports nothing
more if no directive starts there outside of all braces (`imports_directives`). -/

namespace ZeroAlloc.CSharp

/-! ## Directives -/

/-- Whether the lexeme can be a word of a name: an identifier, and no keyword of directives. -/
def isNamespaceWord (l : Lexeme) : Bool :=
  l.isIdent && !(["using", "static"].contains l.text) && !l.text.toList.contains ':'

/-- What a directive does with the name behind it. -/
inductive UsingKind where
  /-- It imports what the name holds. -/
  | plain
  /-- It gives another name to it. -/
  | renamed (name : Lexeme) (isWord : isNamespaceWord name = true)
  /-- It imports the members of the type that has the name. -/
  | static

namespace UsingKind

/-- The lexemes between the word `using` and the name. -/
def row : UsingKind → List Lexeme
  | plain => []
  | renamed name _ => [name, .punct "="]
  | static => [.word "static"]

/-- The other name that is given. -/
def alias? : UsingKind → Option String
  | renamed name _ => some name.text
  | _ => none

/-- Whether the directive imports members of a type. -/
def isStatic : UsingKind → Bool
  | static => true
  | _ => false

end UsingKind

/-- An import directive: `using N;`, `using A = N;` or `using static N;`. -/
structure UsingDirective where
  /-- Whether `global` stands in front of it, so that it holds for all files. -/
  isShared : Bool
  kind : UsingKind
  /-- Whether `global::` stands in front of the name. -/
  isRooted : Bool
  name : DottedName isNamespaceWord

namespace UsingDirective

variable (d : UsingDirective)

/-- The lexemes in front of the word `using`. -/
def head : List Lexeme :=
  if d.isShared then [.word "global"] else []

/-- The lexemes of the name, with its mark. -/
def path : List Lexeme :=
  (if d.isRooted then [.word "global", .punct ":", .punct ":"] else []) ++ d.name.row

/-- The lexemes of the directive, through its semicolon. -/
def row : List Lexeme :=
  d.head ++ .word "using" :: (d.kind.row ++ (d.path ++ [.punct ";"]))

/-- What a directive imports that starts at an index. -/
def import? (index : Nat) : Option Import :=
  if d.kind.isStatic then none
  else
    some {
      path := d.name.text
      aliasName := d.kind.alias?
      first := index + d.head.length
      last := index + d.row.length - 1 }

/-- What directives import that start at an index, one after another. -/
def importsAt (index : Nat) : List UsingDirective → List Import
  | [] => []
  | d :: ds => (d.import? index).toList ++ importsAt (index + d.row.length) ds

/-! ## Reading a directive -/

theorem isNamespaceWord_iff (l : Lexeme) :
    isNamespaceWord l = true ↔
      l.isIdent = true ∧ l.text ≠ "using" ∧ l.text ≠ "static" ∧ ':' ∉ l.text.toList := by
  simp [isNamespaceWord, and_assoc]

theorem isImportPart_of_mem_path {l : Lexeme} (h : l ∈ d.path) : isImportPart l = true := by
  rcases List.mem_append.1 h with h | h
  · split at h
    · simp only [List.mem_cons, List.not_mem_nil, or_false] at h
      rcases h with rfl | rfl | rfl <;> rfl
    · cases h
  · rcases d.name.mem_row h with hword | rfl
    · simp [isImportPart, ((isNamespaceWord_iff l).1 hword).1]
    · rfl

theorem path_ne_nil : d.path ≠ [] := by
  simp [path, DottedName.row]

theorem withoutGlobal_mark (name : String) : withoutGlobal ("global::" ++ name) = name := by
  simp [withoutGlobal]

theorem withoutGlobal_of_not_mem {name : String} (h : ':' ∉ name.toList) :
    withoutGlobal name = name := by
  rw [withoutGlobal, if_neg]
  intro hmark
  obtain ⟨rest, hrest⟩ := List.isPrefixOf_iff_prefix.1 hmark
  exact h (hrest ▸ List.mem_append_left rest (by decide))

/-- The mark is taken off the name, and a name without it is left as it is. -/
theorem withoutGlobal_path : withoutGlobal (joined d.path) = d.name.text := by
  have hcolon : ':' ∉ d.name.text.toList :=
    d.name.not_mem_text (by decide) fun l hl =>
      ((isNamespaceWord_iff l).1 (d.name.isPart_of_mem l hl)).2.2.2
  rw [path, joined_append, d.name.joined_row]
  cases d.isRooted with
  | true => exact withoutGlobal_mark _
  | false => exact withoutGlobal_of_not_mem hcolon

/-- No name is taken for one that is given to another. -/
theorem splitAlias_path (rest : List Lexeme) :
    splitAlias (d.path ++ .punct ";" :: rest) = (none, d.path ++ .punct ";" :: rest) := by
  unfold path
  cases d.isRooted with
  | true => simp [splitAlias]
  | false => exact d.name.splitAlias_row rfl

theorem splitAlias_row (rest : List Lexeme) :
    d.kind.isStatic = false →
    splitAlias (d.kind.row ++ (d.path ++ .punct ";" :: rest)) =
      (d.kind.alias?, d.path ++ .punct ";" :: rest) := by
  intro hstatic
  cases hkind : d.kind with
  | plain => exact d.splitAlias_path rest
  | renamed name hname => exact splitAlias_alias ((isNamespaceWord_iff name).1 hname).1 _
  | static =>
    rw [hkind] at hstatic
    cases hstatic

/-- A directive is static if the word follows `using`. -/
theorem startsWithText_static (rest : List Lexeme) :
    startsWithText ["static"] (d.kind.row ++ (d.path ++ rest)) = d.kind.isStatic := by
  have hword {l : Lexeme} (h : isNamespaceWord l = true) (ls : List Lexeme) :
      startsWithText ["static"] (l :: ls) = false := by
    simpa [startsWithText] using ((isNamespaceWord_iff l).1 h).2.2.1
  cases d.kind with
  | plain =>
    unfold path
    cases d.isRooted with
    | true => rfl
    | false => exact hword (d.name.isPart_of_mem _ List.mem_cons_self) _
  | renamed name hname => exact hword hname _
  | static => rfl

/-- A directive is read from behind its word `using`, whatever follows it. -/
theorem import?_row (index : Nat) (rest : List Lexeme) :
    CSharp.import? (index + d.head.length) (d.kind.row ++ (d.path ++ .punct ";" :: rest)) =
      d.import? index := by
  have htake : (d.path ++ .punct ";" :: rest).takeWhile isImportPart = d.path := by
    rw [List.takeWhile_append_of_pos fun l => d.isImportPart_of_mem_path,
      List.takeWhile_cons_of_neg (by decide), List.append_nil]
  have hdrop : (d.path ++ .punct ";" :: rest).dropWhile isImportPart = .punct ";" :: rest := by
    rw [List.dropWhile_append_of_pos fun l => d.isImportPart_of_mem_path,
      List.dropWhile_cons_of_neg (by decide)]
  rw [CSharp.import?, import?, d.startsWithText_static]
  cases hstatic : d.kind.isStatic with
  | true => rfl
  | false =>
    have hlast : index + d.head.length + 1 +
        ((d.kind.row ++ (d.path ++ .punct ";" :: rest)).length -
          (Lexeme.punct ";" :: rest).length) = index + d.row.length - 1 := by
      simp only [row, List.length_append, List.length_cons, List.length_nil]
      omega
    simp only [d.splitAlias_row rest hstatic, htake, hdrop, d.withoutGlobal_path, hlast]
    simp [d.path_ne_nil, startsWithPunct_cons]

end UsingDirective

/-! ## Reading a file -/

/-- A row with no brace and no word `using` imports nothing. -/
theorem importsFrom_append_plain {ls : List Lexeme}
    (h : ∀ l ∈ ls, l.isPunct "\x7b" = false ∧ l.isPunct "\x7d" = false ∧ l.isWord "using" = false)
    (before : List Lexeme) (index depth : Nat) (rest : List Lexeme) :
    importsFrom before index depth (ls ++ rest) =
      importsFrom (ls.reverse ++ before) (index + ls.length) depth rest := by
  induction ls generalizing before index with
  | nil => rfl
  | cons l ls ih =>
    obtain ⟨hopening, hclosing, hword⟩ := h l List.mem_cons_self
    rw [List.cons_append, importsFrom]
    simp only [hopening, hclosing, hword, Bool.and_false, Bool.false_and, Bool.false_eq_true,
      if_false]
    rw [ih fun m hm => h m (List.mem_cons_of_mem l hm)]
    simp [Nat.add_assoc, Nat.add_comm 1]

namespace UsingDirective

variable (d : UsingDirective)

theorem plain_of_isNamespaceWord {l : Lexeme} (h : isNamespaceWord l = true) :
    l.isPunct "\x7b" = false ∧ l.isPunct "\x7d" = false ∧ l.isWord "using" = false := by
  obtain ⟨hident, husing, -⟩ := (isNamespaceWord_iff l).1 h
  exact ⟨Lexeme.isPunct_of_isIdent hident _, Lexeme.isPunct_of_isIdent hident _,
    by simp [Lexeme.isWord, husing]⟩

/-- Behind the word `using`, a directive has no brace and no such word. -/
theorem plain_of_mem {l : Lexeme} (h : l ∈ d.kind.row ++ (d.path ++ [.punct ";"])) :
    l.isPunct "\x7b" = false ∧ l.isPunct "\x7d" = false ∧ l.isWord "using" = false := by
  rcases List.mem_append.1 h with h | h
  · cases hkind : d.kind with
    | plain =>
      rw [hkind] at h
      cases h
    | renamed name hname =>
      rw [hkind] at h
      simp only [UsingKind.row, List.mem_cons, List.not_mem_nil, or_false] at h
      rcases h with rfl | rfl
      · exact plain_of_isNamespaceWord hname
      · decide
    | static =>
      rw [hkind] at h
      rw [List.mem_singleton.1 h]
      decide
  · rcases List.mem_append.1 h with h | h
    · rcases List.mem_append.1 h with h | h
      · split at h
        · simp only [List.mem_cons, List.not_mem_nil, or_false] at h
          rcases h with rfl | rfl | rfl <;> decide
        · cases h
      · rcases d.name.mem_row h with hword | rfl
        · exact plain_of_isNamespaceWord hword
        · decide
    · rw [List.mem_singleton.1 h]
      decide

/-- A directive outside of all braces is read, and the row goes on behind it. -/
theorem importsFrom_row {before : List Lexeme} (hbefore : canImportAfter before = true)
    (index : Nat) (rest : List Lexeme) :
    importsFrom before index 0 (d.row ++ rest) =
      (d.import? index).toList ++
        importsFrom (d.row.reverse ++ before) (index + d.row.length) 0 rest := by
  have hafter : canImportAfter (d.head.reverse ++ before) = true := by
    unfold head
    split
    · rfl
    · exact hbefore
  -- nothing but the word `using` starts a directive, and a word `global` may stand before it
  have husing (before ls : List Lexeme) (index : Nat) (h : canImportAfter before = true) :
      importsFrom before index 0 (.word "using" :: ls) =
        (CSharp.import? index ls).toList ++
          importsFrom (.word "using" :: before) (index + 1) 0 ls := by
    simp [importsFrom, h]
  have hhead : ∀ l ∈ d.head, l.isPunct "\x7b" = false ∧ l.isPunct "\x7d" = false ∧
      l.isWord "using" = false := by
    intro l hl
    unfold head at hl
    split at hl
    · rw [List.mem_singleton.1 hl]
      decide
    · cases hl
  have hrow : d.row ++ rest = d.head ++ (.word "using" ::
      ((d.kind.row ++ (d.path ++ [.punct ";"])) ++ rest)) := by
    simp [row]
  rw [hrow, importsFrom_append_plain hhead, husing _ _ _ hafter,
    importsFrom_append_plain fun l => d.plain_of_mem]
  have himport := d.import?_row index rest
  simp only [List.append_assoc, List.singleton_append, himport]
  congr 2
  · simp [row]
  · simp only [row, List.length_append, List.length_cons]
    omega

theorem canImportAfter_row (before : List Lexeme) :
    canImportAfter (d.row.reverse ++ before) = true := by
  simp [row, canImportAfter, Lexeme.punct]

end UsingDirective

/-- Directives are read one after another. -/
theorem exists_importsFrom_directives (ds : List UsingDirective) {before : List Lexeme}
    (hbefore : canImportAfter before = true) (index : Nat) (rest : List Lexeme) :
    ∃ before', importsFrom before index 0 (ds.flatMap UsingDirective.row ++ rest) =
      UsingDirective.importsAt index ds ++
        importsFrom before' (index + (ds.flatMap UsingDirective.row).length) 0 rest := by
  induction ds generalizing before index with
  | nil => exact ⟨before, rfl⟩
  | cons d ds ih =>
    obtain ⟨before', hrest⟩ := ih (d.canImportAfter_row before) (index + d.row.length)
    refine ⟨before', ?_⟩
    rw [List.flatMap_cons, List.append_assoc, d.importsFrom_row hbefore, hrest,
      UsingDirective.importsAt, List.append_assoc, List.length_append, Nat.add_assoc]

/-! ## What follows the directives -/

/-- The number of braces that are open behind a row; a closing one without an opening one is passed
over. -/
def openBraces (ls : List Lexeme) : Nat :=
  ls.foldl (fun depth l =>
    if l.isPunct "\x7b" then depth + 1 else if l.isPunct "\x7d" then depth - 1 else depth) 0

/-- The row goes on with a name, given to another one or not, and a semicolon. -/
def StartsImport (ls : List Lexeme) : Prop :=
  ∃ head name rest, ls = head ++ (name ++ .punct ";" :: rest) ∧
    (head = [] ∨ ∃ l, l.isIdent = true ∧ head = [l, .punct "="]) ∧ name ≠ [] ∧
      ∀ l ∈ name, isImportPart l = true

/-- Outside of all braces, no directive imports anything. -/
def ImportsNothing (ls : List Lexeme) : Prop :=
  ∀ passed behind, ls = passed ++ .word "using" :: behind → openBraces passed = 0 →
    canImportAfter passed.reverse = true → ¬StartsImport behind

theorem importsNothing_of_not_mem {ls : List Lexeme} (h : .word "using" ∉ ls) :
    ImportsNothing ls := by
  intro passed behind hrow
  exact absurd (hrow ▸ List.mem_append_right passed List.mem_cons_self) h

theorem exists_head_of_splitAlias (ls : List Lexeme) :
    ∃ head, ls = head ++ (splitAlias ls).2 ∧
      (head = [] ∨ ∃ l, l.isIdent = true ∧ head = [l, .punct "="]) := by
  unfold splitAlias
  split
  · rename_i name mark rest
    split
    · rename_i halias
      obtain ⟨hname, hmark⟩ := Bool.and_eq_true_iff.1 halias
      exact ⟨[name, mark], rfl, .inr ⟨name, hname, by rw [Lexeme.eq_punct hmark]⟩⟩
    · exact ⟨[], rfl, .inl rfl⟩
  · exact ⟨[], rfl, .inl rfl⟩

theorem startsImport_of_import? {index : Nat} {ls : List Lexeme} {i : Import}
    (h : import? index ls = some i) : StartsImport ls := by
  obtain ⟨head, hls, hhead⟩ := exists_head_of_splitAlias ls
  unfold import? at h
  dsimp only at h
  split at h
  · cases h
  · rename_i hguard
    simp only [Bool.or_eq_true, Bool.not_eq_true', not_or, Bool.not_eq_false,
      List.isEmpty_iff] at hguard
    obtain ⟨⟨-, hname⟩, hend⟩ := hguard
    generalize hclause : (splitAlias ls).2 = clause at hls hname hend
    cases hrest : clause.dropWhile isImportPart with
    | nil =>
      rw [hrest] at hend
      cases hend
    | cons mark rest =>
      rw [hrest] at hend
      refine ⟨head, clause.takeWhile isImportPart, rest, ?_, hhead, hname,
        List.all_eq_true.1 List.all_takeWhile⟩
      rw [← Lexeme.eq_punct hend, ← hrest, List.takeWhile_append_dropWhile]
      exact hls

theorem importsFrom_eq_nil {passed ls : List Lexeme} (h : ImportsNothing (passed ++ ls))
    (before : List Lexeme) (index : Nat) :
    importsFrom (passed.reverse ++ before) index (openBraces passed) ls = [] := by
  induction ls generalizing passed index with
  | nil => rfl
  | cons l ls ih =>
    have hrow : (passed ++ [l]) ++ ls = passed ++ l :: ls := by simp
    -- the lexeme joins those that are passed, so their braces tell the depth behind it
    have hmore := @ih (passed ++ [l]) (hrow ▸ h) (index + 1)
    rw [List.reverse_append, List.reverse_singleton, List.singleton_append, openBraces,
      List.foldl_append, ← openBraces] at hmore
    rw [importsFrom]
    simp only [List.foldl_cons, List.foldl_nil, List.cons_append] at hmore
    split at hmore
    · rename_i hopening
      simp only [hopening, if_true]
      exact hmore
    · rename_i hopening
      split at hmore
      · rename_i hclosing
        simp only [hopening, hclosing, if_true]
        exact hmore
      · rename_i hclosing
        simp only [hopening, hclosing, Bool.false_eq_true, if_false, hmore]
        split
        · rename_i husing
          rw [List.append_nil, Option.toList_eq_nil_iff, Option.eq_none_iff_forall_ne_some]
          intro i himport
          simp only [Bool.and_eq_true, beq_iff_eq] at husing
          obtain ⟨⟨houtside, husing⟩, hafter⟩ := husing
          obtain rfl := Lexeme.eq_word husing
          refine h passed ls rfl houtside ?_ (startsImport_of_import? himport)
          cases hpassed : passed.reverse with
          | nil => rfl
          | cons last front =>
            rw [hpassed] at hafter
            exact hafter
        · rfl

/-- The imports of a file that starts with directives and goes on without imports. -/
theorem imports_directives (ds : List UsingDirective) {rest : List Lexeme}
    (h : ImportsNothing rest) :
    imports (ds.flatMap UsingDirective.row ++ rest) = UsingDirective.importsAt 0 ds := by
  have hstart : canImportAfter [] = true := rfl
  obtain ⟨before, himports⟩ := exists_importsFrom_directives ds hstart 0 rest
  have hrest := @importsFrom_eq_nil [] rest h before
    (0 + (ds.flatMap UsingDirective.row).length)
  rw [List.reverse_nil, List.nil_append, show openBraces [] = 0 from rfl] at hrest
  rw [imports, himports, hrest, List.append_nil]

end ZeroAlloc.CSharp
