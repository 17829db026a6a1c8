import ZeroAlloc.Proofs.CSharp.Calls
import ZeroAlloc.Proofs.CSharp.Declarators
import ZeroAlloc.Proofs.Document.Attributes
set_option autoImplicit false

/-! # Calls that leave out a parameter array

In a C# file, a name with a bracketed list is taken for a call that leaves out a parameter array by
the number of its items and by the lexeme in front of it. The items are miscounted where one of them
has a comma in type arguments that no other brackets hold (`Document.callSiteAt?_of_items`), and the
name of a method behind a type that ends with no word is taken for that of a call
(`Document.callSiteAt?_of_heading`). -/

namespace ZeroAlloc.Document

open CSharp (NamedList)

/-- Behind the lexemes `before`, the document has a name with a bracketed list. -/
def Lists (doc : Document) (c : NamedList) (before behind : List Lexeme) : Prop :=
  lexemes doc.tokens.toList = before ++ (c.row ++ behind)

instance (doc : Document) (c : NamedList) (before behind : List Lexeme) :
    Decidable (doc.Lists c before behind) :=
  inferInstanceAs (Decidable (_ = _))

/-- The parameter arrays that methods of the document declare. -/
def paramArrays (doc : Document) : List ParamArray :=
  CSharp.paramArrays (lexemes doc.tokens.toList)

/-- The site of the call that is found at the token with an index. -/
def callSiteAt? (doc : Document) (index : Nat) : Option Site :=
  doc.sites.find? (·.isCallAt index)

/-- The site of the call that leaves out the array and starts at the token with an index. -/
def callSite (doc : Document) (c : NamedList) (index : Nat) (array : ParamArray) : Site :=
  ((array.callSite c.inside).shift index).markAttribute
    (doc.language.attributeSections (lexemes doc.tokens.toList))

/-- The first parameter array that a method of the name takes behind a number of parameters. -/
def paramArray? (doc : Document) (method : String) (fixed : Nat) : Option ParamArray :=
  doc.paramArrays.find? fun array => array.method == method && array.fixed == fixed

variable {path source : String} {c : NamedList} {before behind : List Lexeme}

/-- A name with a bracketed list is taken for such a call if a call can stand there, nothing in the
list reads `params`, and a method of the name takes its array behind as many parameters as the items
are counted. -/
theorem callSiteAt?_eq (h : (read .csharp path source).Lists c before behind) :
    (read .csharp path source).callSiteAt? before.length =
      if CSharp.canCallAfter before.reverse && !c.inside.any (·.text == "params") then
        ((read .csharp path source).paramArray? c.name.text (argumentCount c.inside)).map
          ((read .csharp path source).callSite c before.length)
      else none := by
  have hsites : (read .csharp path source).sites = CSharp.sites (before ++ (c.row ++ behind)) := by
    rw [← h]
    rfl
  rw [callSiteAt?, hsites, CSharp.find?_isCallAt (c.row_append_ne_nil behind),
    c.paramArrayCall?_row, paramArray?, paramArrays, h]
  split
  · rw [Option.map_map]
    unfold callSite
    rw [h]
    rfl
  · rfl

/-! ## Arguments -/

/-- The arguments of a call are counted as they are written, but for the commas in type arguments
that no other brackets hold: each of them counts as one more argument. The count of parameters
leaves these commas out. The call is taken to leave out the array of the first method of its name
that takes as many parameters in front of it as the arguments are counted, if a call can stand
there. -/
theorem callSiteAt?_of_items (h : (read .csharp path source).Lists c before behind) :
    argumentCount c.inside = c.items.length + (c.items.map CSharp.brackets.outerCommas).sum ∧
    (c.items ≠ [] → (∀ item ∈ c.items, CSharp.parameterBrackets.Nests item) →
      commasBefore 0 c.inside + 1 =
        c.items.length + (c.items.map CSharp.parameterBrackets.outerCommas).sum) ∧
    (read .csharp path source).callSiteAt? before.length =
      if CSharp.canCallAfter before.reverse && !c.inside.any (·.text == "params") then
        ((read .csharp path source).paramArray? c.name.text
          (c.items.length + (c.items.map CSharp.brackets.outerCommas).sum)).map
            ((read .csharp path source).callSite c before.length)
      else none := by
  refine ⟨c.argumentCount_inside, c.commasBefore_inside, ?_⟩
  rw [← c.argumentCount_inside]
  exact callSiteAt?_eq h

/-- The call `F` of the given arguments. -/
def callOf (items : List (List Lexeme))
    (isItem : ∀ item ∈ items, CSharp.brackets.Nests item ∧ item.any (!·.isNewline) = true) :
    NamedList :=
  ⟨⟨.ident, "F"⟩, rfl, items, isItem⟩

/-- A call of two arguments, both with a comma. -/
def callOfTwo : NamedList :=
  callOf [lexemesOf .csharp "H(1, 2)", lexemesOf .csharp "new M<A, A>()"] (by decide +kernel)

/-- A method that takes an array behind three parameters, and a call of two arguments. -/
def callOfTwoSource : String :=
  "class C \x7b void F(A a, A b, A c, params int[] d) \x7b \x7d " ++
    "int G = F(H(1, 2), new M<A, A>()); \x7d"

/-- The lexemes in front of the call. -/
def beforeCallOfTwo : List Lexeme :=
  lexemesOf .csharp "class C \x7b void F(A a, A b, A c, params int[] d) \x7b \x7d int G ="

theorem callSiteAt?_of_items_callOfTwo :
    (read .csharp "a.cs" callOfTwoSource).Lists callOfTwo beforeCallOfTwo
        (lexemesOf .csharp "; \x7d") ∧
      callOfTwo.items.length = 2 ∧ commasBefore 0 callOfTwo.inside + 1 = 2 ∧
      ((read .csharp "a.cs" callOfTwoSource).callSiteAt? beforeCallOfTwo.length).any
        (·.element.text? = some "int") = true := by
  have hlists : (read .csharp "a.cs" callOfTwoSource).Lists callOfTwo beforeCallOfTwo
      (lexemesOf .csharp "; \x7d") := by
    decide +kernel
  obtain ⟨-, hparameters, hsite⟩ := callSiteAt?_of_items hlists
  refine ⟨hlists, rfl, ?_, ?_⟩
  · rw [hparameters (by decide +kernel) (by decide +kernel)]
    decide +kernel
  · rw [hsite]
    decide +kernel

/-- The commas of the row stand in brackets, or in lists of type arguments that start outside of
them. -/
def HoldsCommas (ls : List Lexeme) : Prop :=
  ∀ i < ls.length, startsWithPunct "," (ls.drop i) = true → CSharp.brackets.Nests (ls.take i) →
    ∃ j < i, CSharp.brackets.Nests (ls.take j) ∧
      (CSharp.typeArguments? (ls.drop j)).any (fun p => decide (i < j + p.1.length)) = true

instance (ls : List Lexeme) : Decidable (HoldsCommas ls) :=
  inferInstanceAs (Decidable (∀ i < ls.length, _ → _ → ∃ j < i, _))

/-- The call of one argument, a generic creation expression. -/
def callOfOne : NamedList :=
  callOf [lexemesOf .csharp "new M<A, A>()"] (by decide +kernel)

/-- Two methods of one name, and a call with the parameter of the first one. -/
def callOfOneSource : String :=
  "class C \x7b void F(A a, params int[] b) \x7b \x7d " ++
    "void F(A a, A b, params long[] c) \x7b \x7d void G() \x7b F(new M<A, A>()); \x7d \x7d"

/-- The lexemes in front of the call. -/
def beforeCallOfOne : List Lexeme :=
  lexemesOf .csharp ("class C \x7b void F(A a, params int[] b) \x7b \x7d " ++
    "void F(A a, A b, params long[] c) \x7b \x7d void G() \x7b")

/-- A call with a comma in type arguments is matched with another method than the one whose
parameters it passes. -/
theorem not_forall_callSiteAt?_of_items :
    ¬∀ (path source : String) (c : NamedList) (before behind : List Lexeme),
      (read .csharp path source).Lists c before behind →
      startsWithText [";", "\x7b", "\x7d"] before.reverse = true →
      c.items ≠ [] → (∀ item ∈ c.items, HoldsCommas item) →
      (∀ l ∈ c.inside, l.text ≠ "params") →
      argumentCount c.inside = c.items.length ∧
        (read .csharp path source).callSiteAt? before.length =
          ((read .csharp path source).paramArray? c.name.text c.items.length).map
            ((read .csharp path source).callSite c before.length) := by
  intro hclaim
  have hlists : (read .csharp "a.cs" callOfOneSource).Lists callOfOne beforeCallOfOne
      (lexemesOf .csharp "; \x7d \x7d") := by
    decide +kernel
  obtain ⟨-, hmatched⟩ := hclaim _ _ _ _ _ hlists (by decide +kernel) (by decide +kernel)
    (by decide +kernel) (by decide +kernel)
  have hother : (read .csharp "a.cs" callOfOneSource).callSiteAt? beforeCallOfOne.length ≠
      ((read .csharp "a.cs" callOfOneSource).paramArray? callOfOne.name.text
        callOfOne.items.length).map
          ((read .csharp "a.cs" callOfOneSource).callSite callOfOne beforeCallOfOne.length) := by
    decide +kernel
  exact hother hmatched

/-! ## Headings -/

/-- In the heading of a method, a type with a name and a list of parameters behind it, the name is
taken for a call that leaves out a parameter array exactly if the type ends with no word and the
file declares an overload with as many parameters in front of an array as the list is counted to
have. -/
theorem callSiteAt?_of_heading {type : List Lexeme} {ref : CSharp.TypeRef}
    (h : (read .csharp path source).Lists c (before ++ type) behind)
    (htype : CSharp.typeRef? type = some (ref, []))
    (hparams : ∀ l ∈ c.inside, l.text ≠ "params") :
    (read .csharp path source).callSiteAt? (before ++ type).length =
      if type.getLast?.any Lexeme.isIdent then none
      else
        ((read .csharp path source).paramArray? c.name.text
          (c.items.length + (c.items.map CSharp.brackets.outerCommas).sum)).map
            ((read .csharp path source).callSite c (before ++ type).length) := by
  have hplain : c.inside.any (·.text == "params") = false := by simpa using hparams
  rw [callSiteAt?_eq h, CSharp.canCallAfter_of_typeRef htype, hplain, c.argumentCount_inside]
  cases type.getLast?.any Lexeme.isIdent <;> rfl

/-- The parameter list `F(int a)`. -/
def oneParameter : NamedList :=
  callOf [lexemesOf .csharp "int a"] (by decide +kernel)

/-- A method that takes a parameter array behind one parameter, and an overload of the given type
with this parameter alone. -/
def overloadSource (type : String) : String :=
  "class C \x7b void F(int a, params int[] b) \x7b \x7d " ++ type ++
    " F(int a) \x7b return null; \x7d \x7d"

/-- The lexemes in front of the overload. -/
def beforeOverload : List Lexeme :=
  lexemesOf .csharp "class C \x7b void F(int a, params int[] b) \x7b \x7d"

theorem callSiteAt?_of_heading_list :
    (read .csharp "a.cs" (overloadSource "List<int>")).Lists oneParameter
        (beforeOverload ++ lexemesOf .csharp "List<int>")
        (lexemesOf .csharp "\x7b return null; \x7d \x7d") ∧
      CSharp.typeRef? (lexemesOf .csharp "List<int>") =
        some (⟨lexemesOf .csharp "List<int>", false, []⟩, []) ∧
      (∀ l ∈ oneParameter.inside, l.text ≠ "params") ∧
      ((read .csharp "a.cs" (overloadSource "List<int>")).callSiteAt?
        (beforeOverload ++ lexemesOf .csharp "List<int>").length).any
          (·.element.text? = some "int") = true := by
  have hlists : (read .csharp "a.cs" (overloadSource "List<int>")).Lists oneParameter
      (beforeOverload ++ lexemesOf .csharp "List<int>")
      (lexemesOf .csharp "\x7b return null; \x7d \x7d") := by
    decide +kernel
  have htype : CSharp.typeRef? (lexemesOf .csharp "List<int>") =
      some (⟨lexemesOf .csharp "List<int>", false, []⟩, []) := by
    decide +kernel
  have hparams : ∀ l ∈ oneParameter.inside, l.text ≠ "params" := by decide +kernel
  refine ⟨hlists, htype, hparams, ?_⟩
  rw [callSiteAt?_of_heading hlists htype hparams]
  decide +kernel

/-- A declared method is taken for a call. -/
theorem not_forall_callSiteAt?_of_heading :
    ¬∀ (path source : String) (c : NamedList) (type : List Lexeme) (ref : CSharp.TypeRef)
        (before behind : List Lexeme),
      (read .csharp path source).Lists c (before ++ type) behind →
      CSharp.typeRef? type = some (ref, []) →
      startsWithText [";", "\x7b", "\x7d"] before.reverse = true →
      startsWithPunct "\x7b" behind = true →
      (∀ l ∈ c.inside, l.text ≠ "params") →
      (read .csharp path source).callSiteAt? (before ++ type).length = none := by
  intro hclaim
  have hlists : (read .csharp "a.cs" (overloadSource "int[]")).Lists oneParameter
      (beforeOverload ++ lexemesOf .csharp "int[]")
      (lexemesOf .csharp "\x7b return null; \x7d \x7d") := by
    decide +kernel
  have htype : CSharp.typeRef? (lexemesOf .csharp "int[]") =
      some (⟨lexemesOf .csharp "int", false, [⟨[none]⟩]⟩, []) := by
    decide +kernel
  have hfound : (read .csharp "a.cs" (overloadSource "int[]")).callSiteAt?
      (beforeOverload ++ lexemesOf .csharp "int[]").length ≠ none := by
    decide +kernel
  exact hfound (hclaim _ _ _ _ _ _ _ hlists htype (by decide +kernel) (by decide +kernel)
    (by decide +kernel))

end ZeroAlloc.Document
