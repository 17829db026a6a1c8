import Mathlib.Data.List.TakeWhile
import ZeroAlloc.Proofs.Respelling.Fold
import ZeroAlloc.Proofs.Respelling.VisualBasic.Sites
import ZeroAlloc.Proofs.Text.Case
import ZeroAlloc.Proofs.Declaration
import ZeroAlloc.VisualBasic.Size
set_option autoImplicit false

/-! # Respelled declarations in Visual Basic

The names of imports and generic methods stay the same up to case; the definitions of constants are
respelled. -/

namespace ZeroAlloc.VisualBasic

open Text (lowerAscii)

variable (r : Respelling lowerAscii)

/-! ## Names -/

theorem joined_cons (l : Lexeme) (ls : List Lexeme) : joined (l :: ls) = l.text ++ joined ls :=
  String.join_cons

theorem isNamePart_apply (l : Lexeme) : isNamePart (r.apply l) = isNamePart l := by
  simp [isNamePart]

theorem lowerAscii_text_of_isNamePart {l : Lexeme} (h : isNamePart l = true) :
    lowerAscii (r.apply l).text = lowerAscii l.text := by
  simp only [isNamePart, Bool.or_eq_true] at h
  rcases h with h | h
  · exact lowerAscii_text_apply r h
  · rw [r.apply_of_punct]
    simp only [Lexeme.isPunct, Bool.and_eq_true, decide_eq_true_eq] at h
    exact h.1

/-- A dotted name keeps its lower-case form. -/
theorem lowerAscii_joined_row {ls : List Lexeme} (h : ∀ l ∈ ls, isNamePart l = true) :
    lowerAscii (joined (r.row ls)) = lowerAscii (joined ls) := by
  induction ls with
  | nil => rfl
  | cons l ls ih =>
    rw [r.row_cons, joined_cons, joined_cons, Text.lowerAscii_append, Text.lowerAscii_append,
      lowerAscii_text_of_isNamePart r (h l List.mem_cons_self),
      ih fun l hl => h l (List.mem_cons_of_mem _ hl)]

theorem holdsMark_append (a b : String) :
    holdsMark (a ++ b) =
      (holdsMark a || holdsMark b) := by
  simp [holdsMark]

/-- A name in which literals can stand. -/
theorem sameName_joined_row (ls : List Lexeme) :
    r.SameName (joined ls) (joined (r.row ls)) := by
  induction ls with
  | nil => exact .inl rfl
  | cons l ls ih =>
    rw [r.row_cons, joined_cons, joined_cons]
    rcases r.sameName_text_apply l with h | ⟨hchange, h, h'⟩
    · rcases ih with ih | ⟨hchange, ih, ih'⟩
      · exact .inl (by rw [Text.lowerAscii_append, Text.lowerAscii_append, h, ih])
      · exact .inr ⟨hchange, by simp [holdsMark_append, ih],
          by simp [holdsMark_append, ih']⟩
    · exact .inr ⟨hchange, by simp [holdsMark_append, h],
        by simp [holdsMark_append, h']⟩

/-! ## Without the leading `Global` -/

theorem lowerAscii_withoutGlobal (name : String) :
    lowerAscii (withoutGlobal name) = withoutGlobal (lowerAscii name) := by
  have hmark : lowerAscii (String.ofList ((lowerAscii name).toList.take 7)) =
      lowerAscii (String.ofList (name.toList.take 7)) := by
    rw [Text.lowerAscii_eq_iff, String.toList_ofList, String.toList_ofList, Text.toList_lowerAscii,
      ← List.map_take, List.map_map]
    exact List.map_congr_left fun c _ => Text.toLower_toLower c
  have hname (name : String) : withoutGlobal name =
      if lowerAscii (String.ofList (name.toList.take 7)) == "global." then
        String.ofList (name.toList.drop 7) else name := rfl
  rw [hname name, hname (lowerAscii name), hmark]
  split
  · simp [← String.toList_inj]
  · rfl

/-- The mark holds no character that literals start with. -/
theorem holdsMark_withoutGlobal (name : String) :
    holdsMark (withoutGlobal name) = holdsMark name := by
  unfold withoutGlobal
  dsimp only
  split
  · rename_i hglobal
    have hmark : (name.toList.take "global.".length).map Char.toLower = "global.".toList := by
      rw [beq_iff_eq, ← String.toList_inj, Text.toList_lowerAscii, String.toList_ofList] at hglobal
      exact hglobal
    have hnone : (name.toList.take "global.".length).any foreignMarks.contains = false := by
      rw [List.any_eq_false]
      intro c hc
      have hmem : c.toLower ∈ "global.".toList := hmark ▸ List.mem_map_of_mem hc
      have hmarks : (foreignMarks.all fun c => c.toLower ∉ "global.".toList) = true := by decide
      rw [List.contains_iff_mem]
      exact fun h => of_decide_eq_true (List.all_eq_true.1 hmarks c h) hmem
    have hsplit := List.take_append_drop "global.".length name.toList
    unfold holdsMark
    rw [String.toList_ofList]
    conv_rhs => rw [← hsplit, List.any_append, hnone, Bool.false_or]
  · rfl

theorem sameName_withoutGlobal {name name' : String} (h : r.SameName name name') :
    r.SameName (withoutGlobal name) (withoutGlobal name') := by
  rcases h with h | ⟨hchange, h, h'⟩
  · exact .inl (by rw [lowerAscii_withoutGlobal, lowerAscii_withoutGlobal, h])
  · exact .inr ⟨hchange, by rwa [holdsMark_withoutGlobal],
      by rwa [holdsMark_withoutGlobal]⟩

/-! ## Imports -/

/-- What a clause imports, and what follows it. -/
def SameClause (out out' : Option Import × List Lexeme) : Prop :=
  Option.Rel r.SameImport out.1 out'.1 ∧ out'.2 = r.row out.2

theorem importClause?_row (index : Nat) (ls : List Lexeme) :
    Option.Rel (SameClause r) (importClause? index ls) (importClause? index (r.row ls)) := by
  have hxml (l : Lexeme) : (!(r.apply l).isPunct ">") = !l.isPunct ">" := by simp
  have hskip : (r.row ls).dropWhile (fun l => !l.isPunct ">") =
      r.row (ls.dropWhile fun l => !l.isPunct ">") := r.dropWhile_row hxml ls
  unfold importClause?
  dsimp only
  rw [r.startsWithPunct_row, hskip, r.splitAlias_row, r.tail_row]
  split
  · exact .some ⟨.none, rfl⟩
  · simp only [Prod.map_snd, Prod.map_fst, r.dropWhile_row (isNamePart_apply r),
      r.takeWhile_row (isNamePart_apply r), typeArguments?_row]
    rcases typeArguments? ((splitAlias ls).2.dropWhile isNamePart) with _ | ⟨arguments, rest⟩
    · exact .none
    · refine .some ⟨?_, rfl⟩
      simp only [Prod.map_fst, Prod.map_snd, ← r.row_append, r.isEmpty_row, r.length_row]
      generalize (splitAlias ls).2.takeWhile isNamePart ++ arguments = name
      have hpath := sameName_withoutGlobal r (sameName_joined_row r name)
      split
      · exact .none
      · refine .some ⟨?_, rfl, rfl, rfl⟩
        dsimp only
        exact hpath

theorem importClauses_row (index : Nat) (ls : List Lexeme) :
    List.Forall₂ r.SameImport (importClauses index ls) (importClauses index (r.row ls)) := by
  induction hn : ls.length using Nat.strongRecOn generalizing index ls with
  | ind n ih =>
    have hclause := importClause?_row r index ls
    rw [importClauses_eq, importClauses_eq]
    generalize importClause? index (r.row ls) = out at hclause ⊢
    cases hfound : importClause? index ls with
    | none =>
      rw [hfound] at hclause
      cases hclause
      exact .nil
    | some clause =>
      obtain ⟨found, rest⟩ := clause
      have hshort := length_le_of_importClause hfound
      rw [hfound] at hclause
      rcases hclause with ⟨hsame, hrest⟩ | _
      rename_i clause'
      obtain ⟨found', rest'⟩ := clause'
      obtain rfl : rest' = r.row rest := hrest
      simp only [r.startsWithPunct_row, r.tail_row, r.length_row]
      refine List.rel_append ?_ ?_
      · rcases hsame with hsame | _
        · exact .cons hsame .nil
        · exact .nil
      · split
        · rename_i hcomma
          refine ih _ ?_ _ _ rfl
          cases rest with
          | nil => cases hcomma
          | cons comma more =>
            rw [List.length_cons] at hshort
            rw [List.tail_cons]
            omega
        · exact .nil

/-- The imports of a respelled file. -/
theorem imports_row (ls : List Lexeme) :
    List.Forall₂ r.SameImport (imports ls) (imports (r.row ls)) := by
  refine r.atEachPlace_forall₂ (fun before here => ?_) [] ls
  rw [startsWithKeyword_row, startsStatementAfter_row, r.length_row, r.tail_row]
  split
  · exact importClauses_row r _ _
  · exact .nil

/-! ## Constants -/

theorem endsDefinition_apply (depth : Nat) (l : Lexeme) :
    endsDefinition depth (r.apply l) = endsDefinition depth l := by
  simp [endsDefinition]

theorem constantDeclarators_row (ls : List Lexeme) :
    constantDeclarators (r.row ls) = (constantDeclarators ls).map (Prod.map id r.row) := by
  induction hn : ls.length using Nat.strongRecOn generalizing ls with
  | ind n ih =>
    cases ls with
    | nil => rw [r.row_nil, constantDeclarators, List.map_nil]
    | cons name type =>
      have hends (l : Lexeme) : (!endsDeclarator (r.apply l)) = !endsDeclarator l := by
        simp [endsDeclarator]
      have hmark : (r.row type).dropWhile (!endsDeclarator ·) =
          r.row (type.dropWhile (!endsDeclarator ·)) := r.dropWhile_row hends type
      have htype := (List.dropWhile_sublist (l := type) (!endsDeclarator ·)).length_le
      have hshort := length_definition_le endsDefinition 0
        (type.dropWhile (!endsDeclarator ·)).tail
      have hmore := ih (definition endsDefinition 0
        (type.dropWhile (!endsDeclarator ·)).tail).2.tail.length (by simp at hn hshort ⊢; omega)
        _ rfl
      simp only [r.row_cons, constantDeclarators_cons, r.isIdent_apply, hmark,
        r.startsWithPunct_row, r.tail_row, r.definition_row (endsDefinition_apply r), Prod.map,
        hmore]
      split
      · rename_i hname
        rw [lowerAscii_text_apply r (Bool.and_eq_true_iff.1 hname).1]
        split <;> simp
      · rfl

/-- The table of a respelled file has the respelled definitions. -/
theorem constants_row (ls : List Lexeme) :
    constants (r.row ls) = r.constants (d := dialect) (constants ls) := by
  unfold constants
  rw [← r.ofDeclarations_row (d := dialect)]
  congr 1
  refine r.atEachPlace_row (h := Prod.map id r.row) (fun _ here => ?_) [] ls
  rw [startsWithKeyword_row, r.tail_row]
  split
  · exact constantDeclarators_row r _
  · rfl

/-! ## Generic methods -/

/-- The second scope is the first one, up to the case of its name. -/
inductive SameScope : Scope → Scope → Prop where
  | namespaceBody {name name' : String} (h : lowerAscii name' = lowerAscii name) :
    SameScope (.namespaceBody name) (.namespaceBody name')
  | typeBody {name name' : String} (h : lowerAscii name' = lowerAscii name) :
    SameScope (.typeBody name) (.typeBody name')

section Scopes

variable {scopes scopes' : List Scope} (hscopes : List.Forall₂ SameScope scopes scopes')
include hscopes

/-- An `End` closes corresponding scopes. -/
theorem tail_dropWhile_scopes {p : Scope → Bool} (hp : ∀ {s s'}, SameScope s s' → p s = p s') :
    List.Forall₂ SameScope (scopes.dropWhile p).tail (scopes'.dropWhile p).tail := by
  induction hscopes with
  | nil => exact .nil
  | cons h hrest ih =>
    rw [List.dropWhile_cons, List.dropWhile_cons, hp h]
    split
    · exact ih
    · exact hrest

theorem scopesAfter_row (before ls : List Lexeme) :
    List.Forall₂ SameScope (scopesAfter scopes before ls)
      (scopesAfter scopes' (r.row before) (r.row ls)) := by
  cases ls with
  | nil => exact hscopes
  | cons l ls =>
    have hprevious (word : String) (hword : holdsMark word = false) :
        (((r.row before).head?.map fun l => lowerAscii l.text).getD "" == word) =
          ((before.head?.map fun l => lowerAscii l.text).getD "" == word) := by
      cases before with
      | nil => rfl
      | cons l before =>
        rw [Bool.eq_iff_iff, beq_iff_eq, beq_iff_eq]
        exact r.canonical_text_apply_eq_iff hword l
    have hname : lowerAscii (withoutGlobal (joined ((r.row ls).takeWhile isNamePart))) =
        lowerAscii (withoutGlobal (joined (ls.takeWhile isNamePart))) := by
      rw [r.takeWhile_row (isNamePart_apply r), lowerAscii_withoutGlobal, lowerAscii_joined_row,
        lowerAscii_withoutGlobal]
      exact fun l hl => List.mem_takeWhile_imp hl
    have hnamespaces : List.Forall₂ SameScope (scopes.dropWhile (·.namespaceName?.isNone)).tail
        (scopes'.dropWhile (·.namespaceName?.isNone)).tail :=
      tail_dropWhile_scopes hscopes fun h => by cases h <;> rfl
    have htypes : List.Forall₂ SameScope (scopes.dropWhile (·.typeName?.isNone)).tail
        (scopes'.dropWhile (·.typeName?.isNone)).tail :=
      tail_dropWhile_scopes hscopes fun h => by cases h <;> rfl
    simp only [r.row_cons, scopesAfter, r.isIdent_apply, r.startsWithPunct_row, bne,
      hprevious _ (show holdsMark "end" = false by decide),
      hprevious _ (show holdsMark "as" = false by decide)]
    by_cases hident : l.isIdent = true
    · rw [lowerAscii_text_apply r hident, hident]
      simp only [Bool.not_true, Bool.false_eq_true, if_false]
      split
      · split
        · exact hnamespaces
        · exact .cons (.namespaceBody hname) hscopes
      · split
        · split
          · exact htypes
          · cases ls with
            | nil => exact hscopes
            | cons name ls =>
              simp only [r.row_cons, r.isIdent_apply]
              split
              · rename_i h
                have hname : name.isIdent = true := by simp_all
                exact .cons (.typeBody (lowerAscii_text_apply r hname)) hscopes
              · exact hscopes
        · exact hscopes
    · rw [if_pos (by simpa using hident), if_pos (by simpa using hident)]
      exact hscopes

/-- Corresponding scopes form namespaces of the same name. -/
theorem lowerAscii_namespaces :
    (scopes'.filterMap Scope.namespaceName?).map lowerAscii =
      (scopes.filterMap Scope.namespaceName?).map lowerAscii := by
  induction hscopes with
  | nil => rfl
  | cons h _ ih =>
    cases h with
    | namespaceBody h => exact congrArg₂ List.cons h ih
    | typeBody h => exact ih

theorem findSome?_typeName? :
    Option.Rel (fun name name' => lowerAscii name' = lowerAscii name)
      (scopes.findSome? Scope.typeName?) (scopes'.findSome? Scope.typeName?) := by
  induction hscopes with
  | nil => exact .none
  | cons h _ ih =>
    cases h with
    | namespaceBody h => exact ih
    | typeBody h => exact .some h

theorem genericMethod?_row (before ls : List Lexeme) :
    Option.Rel (Respelling.SameMethod lowerAscii) (genericMethod? scopes before ls)
      (genericMethod? scopes' (r.row before) (r.row ls)) := by
  rcases ls with _ | ⟨word, _ | ⟨name, ls⟩⟩
  · exact .none
  · exact .none
  · have hword {w : String} (hw : holdsMark w = false) :
        ((r.row before).head?.any fun l => lowerAscii l.text == w) =
          before.head?.any fun l => lowerAscii l.text == w := by
      cases before with
      | nil => rfl
      | cons l before =>
        rw [r.row_cons, List.head?_cons, List.head?_cons, Option.any_some, Option.any_some,
          Bool.eq_iff_iff, beq_iff_eq, beq_iff_eq]
        exact r.canonical_text_apply_eq_iff hw l
    have hfollows : (["end", "exit", "declare"].any fun w =>
          (r.row before).head?.any fun l => lowerAscii l.text == w) =
        ["end", "exit", "declare"].any fun w =>
          before.head?.any fun l => lowerAscii l.text == w := by
      have hwords : ∀ w ∈ ["end", "exit", "declare"], holdsMark w = false := by
        decide
      rw [Bool.eq_iff_iff, List.any_eq_true, List.any_eq_true]
      exact exists_congr fun w => and_congr_right fun hw => by rw [hword (hwords w hw)]
    simp only [r.row_cons, genericMethod?, isKeyword_apply, hfollows, r.isIdent_apply,
      startsTypeArguments_row]
    split
    · rename_i hmethod
      have hname : name.isIdent = true := by
        simp only [Bool.and_eq_true] at hmethod
        exact hmethod.1.2
      have htype := findSome?_typeName? hscopes
      have hnamespace : lowerAscii (".".intercalate (scopes'.reverse.filterMap
          Scope.namespaceName?)) = lowerAscii (".".intercalate (scopes.reverse.filterMap
            Scope.namespaceName?)) := by
        rw [Text.lowerAscii_intercalate, Text.lowerAscii_intercalate,
          lowerAscii_namespaces (List.rel_reverse hscopes)]
      generalize scopes.findSome? Scope.typeName? = found at htype ⊢
      generalize scopes'.findSome? Scope.typeName? = found' at htype ⊢
      rcases htype with htype | _
      · exact .some ⟨hnamespace, htype, lowerAscii_text_apply r hname⟩
      · exact .none
    · exact .none

theorem genericMethodsFrom_row (before ls : List Lexeme) :
    List.Forall₂ (Respelling.SameMethod lowerAscii) (genericMethodsFrom scopes before ls)
      (genericMethodsFrom scopes' (r.row before) (r.row ls)) := by
  induction ls generalizing scopes scopes' before with
  | nil => exact .nil
  | cons l ls ih =>
    have hmethod := genericMethod?_row r hscopes before (l :: ls)
    have hmore := ih (scopesAfter_row r hscopes before (l :: ls)) (l :: before)
    rw [r.row_cons, genericMethodsFrom, genericMethodsFrom, ← r.row_cons, ← r.row_cons]
    refine List.rel_append ?_ hmore
    generalize genericMethod? scopes before (l :: ls) = out at hmethod ⊢
    generalize genericMethod? scopes' (r.row before) (r.row (l :: ls)) = out' at hmethod ⊢
    rcases hmethod with hsame | _
    · exact .cons hsame .nil
    · exact .nil

end Scopes

/-- The generic methods of a respelled file are those of the file, up to case. -/
theorem genericMethods_row (ls : List Lexeme) :
    List.Forall₂ (Respelling.SameMethod lowerAscii) (genericMethods ls)
      (genericMethods (r.row ls)) :=
  genericMethodsFrom_row r .nil [] ls

/-! ## Sizes -/

theorem keepsSizes : r.KeepsSizes (d := dialect) where
  literal text := by
    have hlower : (r.name text).toList.map Char.toLower = text.toList.map Char.toLower :=
      Text.lowerAscii_eq_iff.1 (r.canonical_name text)
    change literal? (r.name text) = literal? text
    rw [literal?, literal?, hlower]
  castWidth _ := rfl
  isConversion name := congrArg conversions.contains (r.canonical_name name)

theorem isTo_apply (l : Lexeme) : isTo (r.apply l) = isTo l := by
  rw [isTo, isTo, r.isIdent_apply]
  exact isIdent_and_apply r (fun text => text = lowerAscii "to") l

theorem upperBound?_row (table : Constants) (bound : List Lexeme) :
    upperBound? (r.constants (d := dialect) table) (r.row bound) = upperBound? table bound := by
  have hfold (ls : List Lexeme) : fold dialect (r.constants (d := dialect) table) (r.row ls) =
      fold dialect table ls := Respelling.fold_row (keepsSizes r) table ls
  have hto (l : Lexeme) : (!isTo (r.apply l)) = !isTo l := by rw [isTo_apply]
  have hlower : (r.row bound).takeWhile (!isTo ·) = r.row (bound.takeWhile (!isTo ·)) :=
    r.takeWhile_row hto bound
  have hrest : (r.row bound).dropWhile (!isTo ·) = r.row (bound.dropWhile (!isTo ·)) :=
    r.dropWhile_row hto bound
  unfold upperBound?
  rw [hlower, hrest, hfold, hfold]
  rcases bound.dropWhile (!isTo ·) with _ | ⟨l, upper⟩
  · rfl
  · dsimp only [r.row_cons]
    rw [hfold]

/-- A bound is the same length in both spellings. -/
theorem length?_row (table : Constants) (bound : List Lexeme) :
    length? (r.constants (d := dialect) table) (r.row bound) = length? table bound := by
  rw [length?, length?, upperBound?_row]

end ZeroAlloc.VisualBasic
