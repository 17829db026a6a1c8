import Mathlib.Algebra.BigOperators.Group.List.Basic
import Mathlib.Algebra.Ring.Nat
import ZeroAlloc.Proofs.CSharp.Grammar
import ZeroAlloc.Proofs.Site.Pieces
set_option autoImplicit false

/-! # Calls and parameter lists of C#

The arguments of a call and the parameters in front of a parameter array are counted by two readers.
Both count the commas that no brackets hold (`length_splitCommas`, `commasBefore_eq`), but only the
one for parameters takes angle brackets for brackets. So a call passes as many arguments as are
counted if none of them has a comma in type arguments (`argumentCount_intercalate`).

What is taken for a call is a name and a bracketed list; the lexeme before the name alone tells the
name from that of a method which is declared there. Behind a type of the grammar, it does if the
type ends with a word (`canCallAfter_of_typeRef`). -/

namespace ZeroAlloc

/-- Whether the site is that of a call which starts at an index. -/
def Site.isCallAt (index : Nat) (s : Site) : Bool :=
  s.first == index && s.origin.isCompilerGenerated

/-! ## Commas -/

namespace Brackets

variable {k : Brackets}

/-- The number of commas in a row that no brackets hold, neither of the row nor those that are due
behind it. -/
def commasUnder (k : Brackets) (due : List String) (ls : List Lexeme) : Nat :=
  (List.range ls.length).countP fun i =>
    decide (k.due? due (ls.take i) = some []) && startsWithPunct "," (ls.drop i)

/-- The number of commas in a row that no brackets hold. -/
def outerCommas (k : Brackets) (ls : List Lexeme) : Nat :=
  k.commasUnder [] ls

theorem commasUnder_cons {due next : List String} {l : Lexeme} (h : k.step due l = some next)
    (ls : List Lexeme) :
    k.commasUnder due (l :: ls) =
      k.commasUnder next ls + if due = [] ∧ l.isPunct "," = true then 1 else 0 := by
  have hstart : (decide (k.due? due ((l :: ls).take 0) = some []) &&
      startsWithPunct "," ((l :: ls).drop 0)) = true ↔ due = [] ∧ l.isPunct "," = true := by
    simp [due?, startsWithPunct_cons]
  have hmore (i : Nat) : k.due? due ((l :: ls).take (i + 1)) = k.due? next (ls.take i) := by
    rw [List.take_succ_cons, due?_cons, h, Option.bind_some]
  simp only [commasUnder, List.length_cons, List.range_succ_eq_map, List.countP_cons,
    List.countP_map, hstart, Function.comp_def, Nat.succ_eq_add_one, hmore, List.drop_succ_cons]

theorem commasUnder_append {due next : List String} {ls : List Lexeme}
    (h : k.due? due ls = some next) (more : List Lexeme) :
    k.commasUnder due (ls ++ more) = k.commasUnder due ls + k.commasUnder next more := by
  induction ls generalizing due with
  | nil =>
    cases h
    exact (Nat.zero_add _).symm
  | cons l ls ih =>
    rw [due?_cons] at h
    obtain ⟨following, hstep, hrest⟩ := Option.bind_eq_some_iff.1 h
    rw [List.cons_append, commasUnder_cons hstep, commasUnder_cons hstep, ih hrest]
    omega

theorem Nests.intercalate {separator : List Lexeme} (hseparator : k.Nests separator)
    {items : List (List Lexeme)} (h : ∀ item ∈ items, k.Nests item) :
    k.Nests (separator.intercalate items) := by
  induction items with
  | nil => exact .nil
  | cons item items ih =>
    have hitem := h item List.mem_cons_self
    have hmore := ih fun m hm => h m (List.mem_cons_of_mem _ hm)
    cases items with
    | nil => simpa using hitem
    | cons next items =>
      rw [List.intercalate_cons_cons]
      exact (hitem.append hseparator).append hmore

/-- The commas of nested items with commas between them. -/
theorem outerCommas_intercalate (hcomma : k.Nests [.punct ","]) {items : List (List Lexeme)}
    (hne : items ≠ []) (h : ∀ item ∈ items, k.Nests item) :
    k.outerCommas ([Lexeme.punct ","].intercalate items) + 1 =
      items.length + (items.map k.outerCommas).sum := by
  have hone : k.outerCommas [.punct ","] = 1 := by
    rw [outerCommas, commasUnder_cons (by simpa [Nests, due?_cons, due?] using hcomma)]
    rfl
  induction items with
  | nil => exact absurd rfl hne
  | cons item items ih =>
    cases items with
    | nil => simp [Nat.add_comm]
    | cons next items =>
      have hitem := h item List.mem_cons_self
      have hmore := ih (List.cons_ne_nil _ _) fun m hm => h m (List.mem_cons_of_mem _ hm)
      -- one comma stands between the first item and the others
      rw [outerCommas] at hone hmore ⊢
      rw [List.intercalate_cons_cons, List.append_assoc, commasUnder_append hitem,
        commasUnder_append hcomma, hone]
      simp only [List.length_cons, List.map_cons, List.sum_cons, outerCommas] at hmore ⊢
      omega

end Brackets

namespace CSharp

/-- The brackets that enclose lists in the parameters of a method, where no comparisons stand. -/
def parameterBrackets : Brackets where
  pairs := [.parens, .squares, .braces, angles]

theorem length_consFirst {l : Lexeme} {pieces : List (List Lexeme)} (h : pieces ≠ []) :
    (consFirst l pieces).length = pieces.length := by
  cases pieces with
  | nil => exact absurd rfl h
  | cons piece pieces => rfl

theorem opens_brackets (l : Lexeme) : brackets.opens l = l.opensGroup := by
  simp [Brackets.opens, brackets, Lexeme.opensGroup, BracketPair.parens, BracketPair.squares,
    BracketPair.braces, Bool.or_assoc]

theorem closes_brackets (l : Lexeme) : brackets.closes l = l.closesGroup := by
  simp [Brackets.closes, brackets, Lexeme.closesGroup, BracketPair.parens, BracketPair.squares,
    BracketPair.braces, Bool.or_assoc]

/-- A comma opens and closes nothing. -/
theorem plain_of_comma {l : Lexeme} (h : l.isPunct "," = true) :
    l.opensGroup = false ∧ l.closesGroup = false := by
  rw [← opens_brackets, ← closes_brackets]
  exact Brackets.plain_of_isPunct h (by decide)

/-- One lexeme of a row that is cut at commas. -/
theorem length_splitCommas_cons (depth : Nat) (l : Lexeme) (ls : List Lexeme) :
    (splitCommas depth (l :: ls)).length =
      (splitCommas (if l.opensGroup then depth + 1 else if l.closesGroup then depth - 1 else depth)
        ls).length + if depth = 0 ∧ l.isPunct "," = true then 1 else 0 := by
  have hfirst (depth : Nat) : (consFirst l (splitCommas depth ls)).length =
      (splitCommas depth ls).length := length_consFirst (splitCommas_ne_nil _ _)
  rw [splitCommas]
  cases hcomma : l.isPunct "," with
  | true =>
    obtain ⟨hopens, hcloses⟩ := plain_of_comma hcomma
    by_cases hzero : depth = 0
    · simp [hopens, hcloses, hzero]
    · simp [hopens, hcloses, hzero, hfirst]
  | false =>
    cases l.opensGroup with
    | true => simp [hfirst]
    | false => cases l.closesGroup <;> simp [hfirst]

/-- The reader of arguments cuts a row at each comma that no brackets hold. -/
theorem length_splitCommas {due next : List String} {ls : List Lexeme}
    (h : brackets.due? due ls = some next) :
    (splitCommas due.length ls).length = brackets.commasUnder due ls + 1 := by
  induction ls generalizing due with
  | nil => rfl
  | cons l ls ih =>
    rw [Brackets.due?_cons] at h
    obtain ⟨following, hstep, hrest⟩ := Option.bind_eq_some_iff.1 h
    -- the reader has no stack, but its depth is the number of brackets that are due
    have hdepth := Brackets.length_of_step hstep
    rw [opens_brackets, closes_brackets] at hdepth
    rw [length_splitCommas_cons, ← hdepth, ih hrest, Brackets.commasUnder_cons hstep]
    simp only [List.length_eq_zero_iff]
    omega

theorem opens_parameterBrackets (l : Lexeme) :
    parameterBrackets.opens l = (l.opensGroup || l.isPunct "<") := by
  simp [Brackets.opens, parameterBrackets, Lexeme.opensGroup, BracketPair.parens,
    BracketPair.squares, BracketPair.braces, angles, Bool.or_assoc]

theorem closes_parameterBrackets (l : Lexeme) :
    parameterBrackets.closes l = (l.closesGroup || l.isPunct ">") := by
  simp [Brackets.closes, parameterBrackets, Lexeme.closesGroup, BracketPair.parens,
    BracketPair.squares, BracketPair.braces, angles, Bool.or_assoc]

/-- One lexeme of a row whose commas are counted. -/
theorem commasBefore_cons (depth : Nat) (l : Lexeme) (ls : List Lexeme) :
    commasBefore depth (l :: ls) =
      commasBefore (if parameterBrackets.opens l then depth + 1
        else if parameterBrackets.closes l then depth - 1 else depth) ls +
        if depth = 0 ∧ l.isPunct "," = true then 1 else 0 := by
  rw [commasBefore, ← opens_parameterBrackets, ← closes_parameterBrackets]
  cases hcomma : l.isPunct "," with
  | true =>
    obtain ⟨hopens, hcloses⟩ := Brackets.plain_of_isPunct (k := parameterBrackets) hcomma
      (by decide)
    by_cases hzero : depth = 0
    · simp [hopens, hcloses, hzero]
    · simp [hopens, hcloses, hzero]
  | false =>
    cases parameterBrackets.opens l with
    | true => simp
    | false => cases parameterBrackets.closes l <;> simp

/-- The reader of parameters counts each comma that no brackets hold, angle brackets included. -/
theorem commasBefore_eq {due next : List String} {ls : List Lexeme}
    (h : parameterBrackets.due? due ls = some next) :
    commasBefore due.length ls = parameterBrackets.commasUnder due ls := by
  induction ls generalizing due with
  | nil => rfl
  | cons l ls ih =>
    rw [Brackets.due?_cons] at h
    obtain ⟨following, hstep, hrest⟩ := Option.bind_eq_some_iff.1 h
    rw [commasBefore_cons, ← Brackets.length_of_step hstep, ih hrest,
      Brackets.commasUnder_cons hstep]
    simp only [List.length_eq_zero_iff]

/-! ## Bracketed lists -/

/-- A name and the items that stand in round brackets behind it: the arguments of a call, or the
parameters of a declared method. -/
structure NamedList where
  name : Lexeme
  isName : name.isIdent = true
  items : List (List Lexeme)
  isItem : ∀ item ∈ items, brackets.Nests item ∧ item.any (!·.isNewline) = true

namespace NamedList

variable (c : NamedList)

/-- The lexemes between the brackets. -/
def inside : List Lexeme :=
  [Lexeme.punct ","].intercalate c.items

/-- The lexemes from the name through the closing bracket. -/
def row : List Lexeme :=
  c.name :: BracketPair.parens.enclose c.inside

theorem row_append_ne_nil (behind : List Lexeme) : c.row ++ behind ≠ [] :=
  List.cons_ne_nil _ _

theorem nests_inside : brackets.Nests c.inside :=
  Brackets.Nests.intercalate (by decide) fun item hitem => (c.isItem item hitem).1

/-- As many arguments are counted as there are items and commas of items that no brackets hold. -/
theorem argumentCount_inside :
    argumentCount c.inside = c.items.length + (c.items.map brackets.outerCommas).sum := by
  by_cases hnil : c.items = []
  · simp [inside, hnil, argumentCount]
  · -- line breaks alone count as no argument, but every item has another lexeme
    have hblank : c.inside.all Lexeme.isNewline = false := by
      obtain ⟨item, items, hitems⟩ := List.exists_cons_of_ne_nil hnil
      obtain ⟨-, hword⟩ := c.isItem item (by simp [hitems])
      obtain ⟨l, hl, hline⟩ := List.any_eq_true.1 hword
      have hmem : l ∈ c.inside := by
        rw [inside, hitems]
        cases items with
        | nil => simpa using hl
        | cons next items => simp [List.intercalate_cons_cons, hl]
      exact List.all_eq_false.2 ⟨l, hmem, by simpa using hline⟩
    have hcount := Brackets.outerCommas_intercalate (k := brackets) (by decide) hnil
      fun item hitem => (c.isItem item hitem).1
    rw [argumentCount, hblank, if_neg Bool.false_ne_true]
    have hlength : (splitCommas 0 c.inside).length = brackets.outerCommas c.inside + 1 :=
      length_splitCommas c.nests_inside
    exact hlength.trans hcount

/-- Read as parameters, the items are told apart by commas that no angle brackets hold either. -/
theorem commasBefore_inside (hne : c.items ≠ [])
    (h : ∀ item ∈ c.items, parameterBrackets.Nests item) :
    commasBefore 0 c.inside + 1 =
      c.items.length + (c.items.map parameterBrackets.outerCommas).sum := by
  have hcomma : parameterBrackets.Nests [.punct ","] := by decide
  have hcommas : commasBefore 0 c.inside = parameterBrackets.outerCommas c.inside :=
    commasBefore_eq (Brackets.Nests.intercalate hcomma h)
  rw [hcommas]
  exact Brackets.outerCommas_intercalate hcomma hne h

end NamedList

/-! ## Sites of calls -/

/-- The parameter arrays that a file declares. -/
def paramArrays (ls : List Lexeme) : List ParamArray :=
  atEachPlace (fun before here => (paramArray? before here).toList) [] ls

theorem isCompilerGenerated_of_creation {ls : List Lexeme} {s : Site}
    (h : creation? ls = some s) : s.origin.isCompilerGenerated = false := by
  cases isCreation_of_creation h with
  | inferred | listed | unlisted => rfl

/-- A site of a call that starts at a place is what is found there as a call. -/
theorem exists_of_isCallAt {before here : List Lexeme} {s : Site} (hs : s ∈ sites (before ++ here))
    (hcall : s.isCallAt before.length = true) :
    ∃ found, paramArrayCall? (paramArrays (before ++ here)) before.reverse here = some found ∧
      s = (found.shift before.length).markAttribute
        (attributeSections [] 0 none (before ++ here)) := by
  obtain ⟨passed, place, hrow, found, hfound, rfl⟩ := exists_found_of_mem_collected hs
  simp only [Site.isCallAt, Bool.and_eq_true, beq_iff_eq, Site.first_markAttribute,
    Site.first_shift, Site.origin_markAttribute, Site.origin_shift] at hcall
  obtain ⟨hfirst, hgenerated⟩ := hcall
  simp only [List.mem_append, Option.mem_toList] at hfound
  -- the sites of creations and declarations are written in the source, those of calls are not
  rcases hfound with (hfound | hfound) | hfound
  · rw [isCompilerGenerated_of_creation hfound] at hgenerated
    cases hgenerated
  · obtain ⟨_, _, _, _, -, -, -, hlist⟩ := exists_isListOn_of_mem_declarationSites hfound
    cases hlist
    cases hgenerated
  · obtain ⟨array, -, _, _, inside, _, -, -, -, rfl⟩ := exists_callSite_of_paramArrayCall hfound
    have hlength : passed.length = before.length := by simpa [ParamArray.callSite] using hfirst
    obtain ⟨rfl, rfl⟩ := List.append_inj hrow.symm hlength
    exact ⟨_, hfound, rfl⟩

/-- The site of a call that starts at a place: what is found there as a call. -/
theorem find?_isCallAt {before here : List Lexeme} (hne : here ≠ []) :
    (sites (before ++ here)).find? (·.isCallAt before.length) =
      (paramArrayCall? (paramArrays (before ++ here)) before.reverse here).map fun found =>
        (found.shift before.length).markAttribute
          (attributeSections [] 0 none (before ++ here)) := by
  cases hsite : (sites (before ++ here)).find? (·.isCallAt before.length) with
  | some s =>
    obtain ⟨found, hfound, rfl⟩ :=
      exists_of_isCallAt (List.mem_of_find?_eq_some hsite) (List.find?_some hsite)
    rw [hfound]
    rfl
  | none =>
    cases hcall : paramArrayCall? (paramArrays (before ++ here)) before.reverse here with
    | none => rfl
    | some found =>
      -- what is found at the place is a site of the file, so the search does not fail
      have hmem : (found.shift before.length).markAttribute
          (attributeSections [] 0 none (before ++ here)) ∈ sites (before ++ here) :=
        mem_collected _ hne (List.mem_append_right _ (Option.mem_toList.2 hcall))
      refine absurd ?_ (List.find?_eq_none.1 hsite _ hmem)
      have hgenerated := isCompilerGenerated_of_paramArrayCall hcall
      obtain ⟨array, -, _, _, inside, _, -, -, -, rfl⟩ := exists_callSite_of_paramArrayCall hcall
      simp [Site.isCallAt, ParamArray.callSite, Origin.isCompilerGenerated]

/-- A name with a bracketed list is taken for a call that leaves out a parameter array if a call can
stand there, nothing in the list reads `params`, and a method of the name takes its array behind as
many parameters as the items are counted. -/
theorem NamedList.paramArrayCall?_row (c : NamedList) (arrays : List ParamArray)
    (before behind : List Lexeme) :
    paramArrayCall? arrays before (c.row ++ behind) =
      if canCallAfter before && !c.inside.any (·.text == "params") then
        (arrays.find? fun array =>
          array.method == c.name.text && array.fixed == argumentCount c.inside).map
            (·.callSite c.inside)
      else none := by
  have hgroup := BracketPair.group?_enclose (by decide)
    (c.nests_inside.nested (b := .parens) (by decide)) behind
  rw [row, List.cons_append, paramArrayCall?, c.isName, Bool.true_and, hgroup]
  dsimp only
  cases canCallAfter before with
  | false => rfl
  | true => cases c.inside.any (·.text == "params") <;> rfl

/-! ## Names behind a type -/

/-- The last lexeme of the row, if it is a word, can end the name of a type. -/
def EndsType (ls : List Lexeme) : Prop :=
  ∀ l ∈ ls.getLast?, l.isIdent = true → nonTypeWords.contains l.text = false ∨ l.text = "global"

namespace EndsType

variable {ls more : List Lexeme}

theorem nil : EndsType [] :=
  fun _ h => by cases h

theorem append (h : EndsType ls) (hmore : EndsType more) : EndsType (ls ++ more) := by
  intro l hl
  rw [List.getLast?_append] at hl
  cases hlast : more.getLast? with
  | none =>
    rw [hlast] at hl
    exact h l hl
  | some last =>
    rw [hlast] at hl
    exact hmore l (hlast.trans hl)

/-- A row that ends with punctuation. -/
theorem concat {l : Lexeme} {p : String} (h : l.isPunct p = true) (ls : List Lexeme) :
    EndsType (ls ++ [l]) := by
  intro m hm hident
  obtain rfl : l = m := by simpa using hm
  simp only [Lexeme.isPunct, Bool.and_eq_true, decide_eq_true_eq] at h
  simp [Lexeme.isIdent, h.1] at hident

theorem of_group {b : BracketPair} {inside : List Lexeme} (h : b.group? ls = some (inside, [])) :
    EndsType ls := by
  obtain ⟨opening, close, -, hclose, rfl⟩ := BracketPair.eq_append_of_group h
  exact concat hclose _

theorem of_suffix (hne : more ≠ []) (hmore : EndsType more) (h : more <:+ ls) : EndsType ls := by
  obtain ⟨front, rfl⟩ := h
  intro l hl
  rw [List.getLast?_append_of_ne_nil _ hne] at hl
  exact hmore l hl

theorem of_typeArguments {rest : List Lexeme} (h : typeArguments? more = some (ls, rest)) :
    EndsType ls := by
  rcases isGroup_of_typeArguments h with rfl | hgroup
  · exact nil
  · cases hgroup with
    | intro _ _ _ hclose => exact concat hclose (_ :: _)

theorem of_typeName {rest : List Lexeme} (h : typeName? more = some (ls, rest)) :
    EndsType ls := by
  have hpart {l : Lexeme} {row arguments after : List Lexeme} (hl : isTypeWord l row = true)
      (harguments : typeArguments? row = some (arguments, after)) : EndsType (l :: arguments) := by
    refine @append [l] _ (fun m hm hident => ?_) (of_typeArguments harguments)
    obtain rfl : l = m := Option.some.inj hm
    unfold isTypeWord at hl
    grind
  fun_induction typeName? more generalizing ls with
  | case1 => cases h
  | case2 => cases h
  | case3 l row hl arguments after harguments _ =>
    cases h
    exact hpart hl harguments
  | case4 l row hl arguments after harguments mark next hqualifier ih =>
    obtain ⟨⟨name, r⟩, hname, he⟩ := Option.map_eq_some_iff.1 h
    cases he
    exact of_suffix (eq_append_of_typeName hname).2 (ih hname) (List.suffix_append _ _)
  | case5 => cases h

theorem of_isTypeMark (h : ∀ l ∈ ls, isTypeMark l = true) : EndsType ls := by
  rcases List.eq_nil_or_concat ls with rfl | ⟨front, mark, rfl⟩
  · exact nil
  · rw [List.concat_eq_append] at h ⊢
    rcases Bool.or_eq_true_iff.1 (h mark (by simp)) with hmark | hmark
    · exact concat hmark front
    · exact concat hmark front

theorem of_arrayLevels {b : BracketPair} {isLevel : List Lexeme → Bool} {levels : List ArrayLevel}
    (h : arrayLevels b isLevel ls = some (levels, [])) : EndsType ls := by
  by_cases hne : levels = []
  · subst hne
    rw [arrayLevels_eq] at h
    split at h
    · obtain ⟨p, -, h⟩ := Option.bind_eq_some_iff.1 h
      obtain ⟨q, -, hq⟩ := Option.map_eq_some_iff.1 h
      cases hq
    · cases h
      exact nil
  · obtain ⟨list, inside, hlist, hgroup⟩ := exists_group_of_arrayLevels hne h
    refine of_suffix ?_ (of_group hgroup) hlist
    rintro rfl
    cases hgroup

theorem of_typeRef {ref : TypeRef} (h : typeRef? ls = some (ref, [])) : EndsType ls := by
  rw [typeRef?_eq] at h
  obtain ⟨⟨name, after⟩, hname, h⟩ := Option.bind_eq_some_iff.1 h
  obtain ⟨⟨levels, r⟩, hlevels, he⟩ := Option.map_eq_some_iff.1 h
  cases he
  have hend : EndsType name ∧ ls = name ++ after := by
    unfold elementName? at hname
    split at hname
    · obtain ⟨rfl, -⟩ := eq_append_of_tuple hname
      obtain ⟨⟨inside, r⟩, hgroup, he⟩ := Option.map_eq_some_iff.1 hname
      obtain rfl : r = after := congrArg Prod.snd he
      obtain ⟨opening, close, -, hclose, rfl⟩ := BracketPair.eq_cons_of_group hgroup
      exact ⟨concat hclose (_ :: _), rfl⟩
    · exact ⟨of_typeName hname, (eq_append_of_typeName hname).1⟩
  rw [hend.2, ← List.takeWhile_append_dropWhile (p := isTypeMark) (l := after)]
  exact hend.1.append ((of_isTypeMark (List.all_eq_true.1 List.all_takeWhile)).append
    (of_arrayLevels hlevels))

end EndsType

/-- Behind a type, the name of a method is told from a call if the type ends with a word. -/
theorem canCallAfter_of_typeRef {type : List Lexeme} {ref : TypeRef}
    (h : typeRef? type = some (ref, [])) (before : List Lexeme) :
    canCallAfter (before ++ type).reverse = !type.getLast?.any Lexeme.isIdent := by
  obtain ⟨lists, htype, hparts, -⟩ := eq_append_of_typeRef h
  obtain ⟨front, last, rfl⟩ : ∃ front last, type = List.concat front last :=
    (List.eq_nil_or_concat type).resolve_left (by simp [htype, hparts])
  rw [List.concat_eq_append] at h ⊢
  have hword := EndsType.of_typeRef h last (by simp)
  -- a call may stand behind some words, but no type ends with one of these
  have hcall : ∀ word ∈ callWords, nonTypeWords.contains word = true ∧ word ≠ "global" := by decide
  have hplace : (before ++ (front ++ [last])).reverse = last :: (front.reverse ++ before.reverse) :=
    by simp
  rw [hplace, canCallAfter, List.getLast?_concat, Option.any_some]
  cases hident : last.isIdent with
  | false => rfl
  | true =>
    have hnot : callWords.contains last.text = false := by
      rw [Bool.eq_false_iff]
      intro hmem
      obtain ⟨hnon, hglobal⟩ := hcall _ (by simpa using hmem)
      rcases hword hident with hword | hword
      · rw [hnon] at hword
        cases hword
      · exact hglobal hword
    rw [hnot]
    rfl

end CSharp

end ZeroAlloc
