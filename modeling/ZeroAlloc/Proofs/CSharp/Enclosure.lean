import ZeroAlloc.CSharp.Declaration
import ZeroAlloc.Proofs.Bracket
import ZeroAlloc.Proofs.Enclosure
set_option autoImplicit false

/-! # Scopes in C#

What a brace opens is told by the text in front of it, and so is the namespace of the rest of the
file. The state of the search for generic methods is a summary of just that (`Nesting.Shows`), so
the search finds the methods with the scopes around them (`genericMethods_eq`). -/

namespace ZeroAlloc.CSharp

/-! ## Headings -/

/-- Whether a lexeme can be part of the name of a namespace. -/
def isNamespacePart (l : Lexeme) : Bool :=
  l.isIdent || l.isPunct "."

/-- The namespace that a place declares for the rest of the file. -/
def fileHeading? : (here : List Lexeme) → Option String
  | [] => none
  | word :: ls =>
    if word.isWord "namespace" && startsWithPunct ";" (ls.dropWhile isNamespacePart) then
      some (joined (ls.takeWhile isNamespacePart))
    else none

/-- The scope that a place announces. -/
def heading? : (here : List Lexeme) → Option Enclosure
  | [] => none
  | word :: ls =>
    if word.isWord "namespace" then
      if startsWithPunct ";" (ls.dropWhile isNamespacePart) then none
      else some (.namespaceBody (joined (ls.takeWhile isNamespacePart)))
    else if ["class", "struct", "interface", "record"].any word.isWord && startsWithIdent ls then
      ls.head?.map fun name => .typeBody name.text
    else none

/-- The scope that the next brace opens: the nearest heading in front of it announces it, unless a
brace or a semicolon follows the heading. -/
def announced? : (before here : List Lexeme) → Option Enclosure
  | [], _ => none
  | l :: before, here =>
    if l.isPunct "\x7b" || l.isPunct ";" then none
    else (heading? (l :: here)).or (announced? before (l :: here))

/-- The namespace that the nearest place in front has declared for the rest of the file. -/
def fileNamespace? : (before here : List Lexeme) → Option String
  | [], _ => none
  | l :: before, here => (fileHeading? (l :: here)).or (fileNamespace? before (l :: here))

/-- Braces open and end scopes. -/
def turn (before : List Lexeme) : (here : List Lexeme) → Turn
  | [] => .stays
  | l :: ls =>
    if l.isPunct "\x7b" then .opens ((announced? before (l :: ls)).getD .block)
    else if l.isPunct "\x7d" then .ends .ofAny
    else .stays

/-- The name of the generic method whose declaration a place reads as: a name between what can end a
return type and type arguments with an opening bracket behind them. The angle bracket of an arrow
can end one too, so a call behind an arrow reads as a declaration. -/
def methodName? (before : List Lexeme) : (here : List Lexeme) → Option String
  | [] => none
  | name :: arguments =>
    if name.isIdent && !name.isWord "namespace" && declaresAfter before &&
        startsWithPunct "<" arguments &&
        (typeArguments? arguments).any fun (_, rest) => startsWithPunct "(" rest then
      some name.text
    else none

/-- The words that can stand in front of the return type of a method. -/
def modifiers : List String := [
  "public", "private", "protected", "internal", "static", "abstract", "virtual", "override",
  "sealed", "extern", "new", "unsafe", "async", "partial", "ref", "readonly"]

/-- Whether the return type of a member can start behind a place. -/
def startsMemberAfter : (before : List Lexeme) → Bool
  | [] => true
  | l :: _ => ["\x7b", "\x7d", ";", "]"].any l.isPunct || modifiers.any l.isWord

/-- Whether a return type stands in front of a name and starts a member of its scope. -/
def followsReturnType (before here : List Lexeme) : Bool :=
  (List.range before.length).any fun n =>
    startsMemberAfter (before.drop (n + 1)) &&
      (typeRef? ((before.take (n + 1)).reverse ++ here)).any fun (_, rest) =>
        rest.dropWhile (·.isPunct "?") == here

/-- What C# makes of the places of a row. -/
def headings : Headings :=
  ⟨turn, fileNamespace?, methodName?, fun _ => rfl, followsReturnType⟩

/-! ## The state of the search -/

/-- What a brace has opened. -/
def Scope.enclosure : Scope → Enclosure
  | namespaceBody name => .namespaceBody name
  | typeBody name => .typeBody name
  | block => .block

/-- The state at a place shows the scopes that are open there and what the text in front has
announced. -/
structure Nesting.Shows (n : Nesting) (opened : List Enclosure) (before here : List Lexeme) :
    Prop where
  scopes : n.scopes.map Scope.enclosure = opened
  announced : n.announced.map Scope.enclosure = announced? before here
  fileNamespace : n.fileNamespace = fileNamespace? before here

section

variable {l : Lexeme} {ls before : List Lexeme}

theorem isWord_of_isPunct {p : String} (h : l.isPunct p = true) (w : String) :
    l.isWord w = false := by
  simp only [Lexeme.isPunct, Bool.and_eq_true, decide_eq_true_eq] at h
  simp [Lexeme.isWord, h.1]

theorem isIdent_of_isPunct {p : String} (h : l.isPunct p = true) : l.isIdent = false := by
  simp only [Lexeme.isPunct, Bool.and_eq_true, decide_eq_true_eq] at h
  simp [Lexeme.isIdent, h.1]

theorem heading?_of_isPunct {p : String} (h : l.isPunct p = true) (ls : List Lexeme) :
    heading? (l :: ls) = none := by
  simp [heading?, isWord_of_isPunct h]

theorem fileHeading?_of_isPunct {p : String} (h : l.isPunct p = true) (ls : List Lexeme) :
    fileHeading? (l :: ls) = none := by
  simp [fileHeading?, isWord_of_isPunct h]

/-- A lexeme that is no brace and no semicolon changes only what its heading announces. -/
theorem Nesting.after_of_plain (n : Nesting) (ls : List Lexeme) (hopen : l.isPunct "\x7b" = false)
    (hclose : l.isPunct "\x7d" = false) (hsemicolon : l.isPunct ";" = false) :
    (n.after (l :: ls)).scopes = n.scopes ∧
      (n.after (l :: ls)).announced.map Scope.enclosure =
        (heading? (l :: ls)).or (n.announced.map Scope.enclosure) ∧
      (n.after (l :: ls)).fileNamespace = (fileHeading? (l :: ls)).or n.fileNamespace := by
  have hpart : (fun l : Lexeme => l.isIdent || l.isPunct ".") = isNamespacePart := rfl
  simp only [Nesting.after, hopen, hclose, hsemicolon, hpart, heading?, fileHeading?,
    Bool.false_eq_true, if_false]
  cases hnamespace : l.isWord "namespace" with
  | true =>
    cases hrest : startsWithPunct ";" (ls.dropWhile isNamespacePart) with
    | true => simp
    | false => simp [Scope.enclosure]
  | false =>
    cases htype : ["class", "struct", "interface", "record"].any l.isWord with
    | true =>
      cases ls with
      | nil => simp [startsWithIdent]
      | cons name ls =>
        cases hname : name.isIdent with
        | true => simp [startsWithIdent, hname, Scope.enclosure]
        | false => simp [startsWithIdent, hname]
    | false => simp

/-- The state keeps showing what is open as the search goes on by one lexeme. -/
theorem Nesting.Shows.after {n : Nesting} {opened : List Enclosure}
    (h : n.Shows opened before (l :: ls)) :
    (n.after (l :: ls)).Shows ((turn before (l :: ls)).apply opened) (l :: before) ls := by
  obtain ⟨rfl, hannounced, hfile⟩ := h
  cases hopen : l.isPunct "\x7b" with
  | true =>
    have hstate : n.after (l :: ls) =
        ⟨n.announced.getD .block :: n.scopes, none, n.fileNamespace⟩ := by
      simp [Nesting.after, hopen]
    rw [hstate, turn, if_pos hopen, ← hannounced]
    refine ⟨?_, ?_, ?_⟩
    · cases n.announced <;> rfl
    · simp [announced?, hopen]
    · simp [fileNamespace?, fileHeading?_of_isPunct hopen, hfile]
  | false =>
  cases hclose : l.isPunct "\x7d" with
  | true =>
    have hstate : n.after (l :: ls) = ⟨n.scopes.tail, n.announced, n.fileNamespace⟩ := by
      simp [Nesting.after, hopen, hclose]
    have hsemicolon : l.isPunct ";" = false := BracketPair.isPunct_eq_false (by decide) hclose
    rw [hstate, turn, if_neg (by simp [hopen]), if_pos hclose]
    -- what has been announced stays announced behind the brace
    refine ⟨?_, ?_, ?_⟩
    · cases n.scopes <;> simp [Turn.apply, Ending.fits]
    · simp [announced?, hopen, hsemicolon, heading?_of_isPunct hclose, hannounced]
    · simp [fileNamespace?, fileHeading?_of_isPunct hclose, hfile]
  | false =>
  have hturn : turn before (l :: ls) = .stays := by
    rw [turn, if_neg (by simp [hopen]), if_neg (by simp [hclose])]
  rw [hturn, Turn.apply]
  cases hsemicolon : l.isPunct ";" with
  | true =>
    have hstate : n.after (l :: ls) = ⟨n.scopes, none, n.fileNamespace⟩ := by
      simp [Nesting.after, hopen, hclose, hsemicolon]
    rw [hstate]
    refine ⟨rfl, ?_, ?_⟩
    · simp [announced?, hsemicolon]
    · simp [fileNamespace?, fileHeading?_of_isPunct hsemicolon, hfile]
  | false =>
    obtain ⟨hscopes, hnext, hrest⟩ := n.after_of_plain ls hopen hclose hsemicolon
    refine ⟨by rw [hscopes], ?_, ?_⟩
    · simp [hnext, announced?, hopen, hsemicolon, hannounced]
    · rw [hrest, fileNamespace?, hfile]

end

/-! ## Methods -/

namespace Nesting

theorem typeName?_eq (n : Nesting) :
    n.typeName? = (n.scopes.map Scope.enclosure).findSome? Enclosure.typeName? := by
  rw [List.findSome?_map, typeName?]
  congr 1
  funext scope
  cases scope <;> rfl

theorem namespaceName_eq (n : Nesting) : n.namespaceName =
    ".".intercalate (n.fileNamespace.toList ++
      (n.scopes.map Scope.enclosure).reverse.filterMap Enclosure.namespaceName?) := by
  rw [← List.map_reverse, List.filterMap_map, namespaceName]
  congr 3
  funext scope
  cases scope <;> rfl

namespace Shows

variable {n : Nesting} {opened : List Enclosure} {before here : List Lexeme}

theorem innermostType? (h : n.Shows opened before here) (name : String) (isDeclared : Bool) :
    (Member.mk (headings.scopesAt opened before here) name isDeclared).innermostType? =
      n.typeName? := by
  rw [Member.innermostType?, Headings.scopesAt, List.findSome?_append, typeName?_eq, h.scopes]
  cases headings.fileNamespace? before here <;> simp [Enclosure.typeName?]

theorem namespaceName (h : n.Shows opened before here) (name : String) (isDeclared : Bool) :
    (Member.mk (headings.scopesAt opened before here) name isDeclared).namespaceName =
      n.namespaceName := by
  have hfile : headings.fileNamespace? before here = n.fileNamespace := h.fileNamespace.symm
  rw [Member.namespaceName, Headings.scopesAt, hfile, List.reverse_append, List.filterMap_append,
    namespaceName_eq, h.scopes]
  cases n.fileNamespace <;> rfl

/-- The search names a method by its innermost type and by all namespaces around it. -/
theorem genericMethod?_eq (h : n.Shows opened before here) :
    genericMethod? n before here =
      (headings.member? opened before here).bind Member.genericMethod? := by
  have hmember : (headings.member? opened before here).bind Member.genericMethod? =
      (methodName? before here).bind fun name =>
        n.typeName?.map fun typeName => ⟨n.namespaceName, typeName, name⟩ := by
    simp only [Headings.member?, Option.bind_map, Function.comp_def, Member.genericMethod?,
      h.innermostType?, h.namespaceName]
    rfl
  rw [hmember]
  cases here with
  | nil => rfl
  | cons l ls =>
    -- a word with type arguments behind it does not head a type
    have hheading (harguments : startsWithPunct "<" ls = true) : startsWithIdent ls = false := by
      cases ls with
      | nil => rfl
      | cons l' ls =>
        rw [startsWithPunct_cons] at harguments
        exact isIdent_of_isPunct harguments
    cases harguments : startsWithPunct "<" ls with
    | false => simp [CSharp.genericMethod?, methodName?, harguments]
    | true =>
      simp only [CSharp.genericMethod?, methodName?, harguments, hheading harguments,
        Bool.and_false, Bool.or_false, Bool.and_true]
      cases hplace : l.isIdent && !l.isWord "namespace" && declaresAfter before with
      | false => simp
      | true =>
        cases typeArguments? ls with
        | none => cases n.typeName? <;> rfl
        | some r =>
          cases hcall : startsWithPunct "(" r.2 with
          | false => cases n.typeName? <;> simp [hcall]
          | true => cases n.typeName? <;> simp [hcall]

end Shows

end Nesting

/-- The search finds the methods of the row, by their innermost types. -/
theorem genericMethodsFrom_eq {n : Nesting} {opened : List Enclosure} {before ls : List Lexeme}
    (h : n.Shows opened before ls) : genericMethodsFrom n before ls =
      (headings.membersFrom opened before ls).filterMap Member.genericMethod? := by
  induction ls generalizing n opened before with
  | nil => rfl
  | cons l ls ih =>
    rw [genericMethodsFrom, Headings.membersFrom, List.filterMap_append, ih h.after,
      h.genericMethod?_eq, filterMap_toList]
    rfl

theorem genericMethods_eq (ls : List Lexeme) :
    genericMethods ls = (headings.members ls).filterMap Member.genericMethod? :=
  genericMethodsFrom_eq ⟨rfl, rfl, rfl⟩

end ZeroAlloc.CSharp
