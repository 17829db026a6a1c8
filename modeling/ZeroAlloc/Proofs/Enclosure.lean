import ZeroAlloc.Place
import ZeroAlloc.Site
set_option autoImplicit false

/-! # Scopes around a place

The namespaces and types that a place of a file stands in, told without a stack: in front of the
place there are rows in which every scope ends, and between them the openings of scopes that do not
(`Around`). In a properly nested file each place has its scopes (`Turn.Nested.exists_around`), and a
pass with a stack finds them (`Headings.mem_members_iff`). -/

namespace ZeroAlloc

/-- What a place can stand in. -/
inductive Enclosure where
  | namespaceBody (name : String)
  | typeBody (name : String)
  | block
  deriving DecidableEq

namespace Enclosure

/-- The name of a namespace. -/
def namespaceName? : Enclosure → Option String
  | namespaceBody name => some name
  | _ => none

/-- The name of a type. -/
def typeName? : Enclosure → Option String
  | typeBody name => some name
  | _ => none

end Enclosure

/-- How a scope ends. -/
inductive Ending where
  | ofAny
  | ofNamespace
  | ofType
  deriving DecidableEq

/-- Whether a scope can end so. -/
def Ending.fits : Ending → Enclosure → Bool
  | ofAny, _ => true
  | ofNamespace, e => e.namespaceName?.isSome
  | ofType, e => e.typeName?.isSome

/-- What a place means for the scopes around the next one. -/
inductive Turn where
  | opens (e : Enclosure)
  | ends (ending : Ending)
  | stays
  deriving DecidableEq

namespace Turn

/-- A row in which every scope ends, and nothing else does. -/
inductive Nested : List Turn → Prop where
  | nil : Nested []
  | stays {ts : List Turn} (h : Nested ts) : Nested (.stays :: ts)
  | scope {e : Enclosure} {ending : Ending} {inside ts : List Turn} (hinside : Nested inside)
      (hends : ending.fits e = true) (h : Nested ts) :
      Nested (.opens e :: (inside ++ .ends ending :: ts))

/-- The scopes behind a place in given ones, innermost first. An end takes the innermost scope that
can end so with all that is open in it. -/
def apply (around : List Enclosure) : Turn → List Enclosure
  | opens e => e :: around
  | ends ending => (around.dropWhile fun e => !ending.fits e).tail
  | stays => around

theorem apply_ends {e : Enclosure} {ending : Ending} (h : ending.fits e = true)
    (around : List Enclosure) : apply (e :: around) (.ends ending) = around := by
  simp [apply, h]

namespace Nested

theorem single : Nested [.stays] :=
  .stays .nil

theorem append {ts more : List Turn} (h : Nested ts) (hmore : Nested more) :
    Nested (ts ++ more) := by
  induction h with
  | nil => exact hmore
  | stays _ ih => exact .stays ih
  | scope hinside hends _ _ ih =>
    rw [List.cons_append, List.append_assoc, List.cons_append]
    exact .scope hinside hends ih

/-- A nested row leaves the scopes around it. -/
theorem foldl_apply {ts : List Turn} (h : Nested ts) (around : List Enclosure) :
    ts.foldl apply around = around := by
  induction h generalizing around with
  | nil => rfl
  | stays _ ih => exact ih around
  | scope _ hends _ ihinside ih =>
    rw [List.foldl_cons, List.foldl_append, ihinside, List.foldl_cons, apply, apply_ends hends, ih]

end Nested

/-! ## Checking -/

/-- Whether all of the given scopes end in a row, and those that open there too. -/
def endsAll : List Enclosure → List Turn → Bool
  | [], [] => true
  | _ :: _, [] => false
  | around, .stays :: ts => endsAll around ts
  | around, .opens e :: ts => endsAll (e :: around) ts
  | [], .ends _ :: _ => false
  | e :: around, .ends ending :: ts => ending.fits e && endsAll around ts

/-- A row in which the given scopes end, with nested rows in front of their ends. -/
def NestedUnder : List Enclosure → List Turn → Prop
  | [], ts => Nested ts
  | e :: around, ts => ∃ inside ending rest, ts = inside ++ .ends ending :: rest ∧ Nested inside ∧
      ending.fits e = true ∧ NestedUnder around rest

theorem NestedUnder.nested_append {around : List Enclosure} {ts more : List Turn} (h : Nested ts)
    (hmore : NestedUnder around more) : NestedUnder around (ts ++ more) := by
  cases around with
  | nil => exact h.append hmore
  | cons e around =>
    obtain ⟨inside, ending, rest, rfl, hinside, hends, hrest⟩ := hmore
    exact ⟨ts ++ inside, ending, rest, by simp, h.append hinside, hends, hrest⟩

theorem nestedUnder_of_endsAll {around : List Enclosure} {ts : List Turn}
    (h : endsAll around ts = true) : NestedUnder around ts := by
  induction ts generalizing around with
  | nil =>
    cases around with
    | nil => exact Nested.nil
    | cons e around => cases h
  | cons t ts ih =>
    cases t with
    | stays =>
      rw [endsAll] at h
      exact (ih h).nested_append .single
    | opens e =>
      rw [endsAll] at h
      obtain ⟨inside, ending, rest, rfl, hinside, hends, hrest⟩ := ih h
      -- the opening takes the first of the ends, and the scope joins the row before the next one
      have hscope : Nested (.opens e :: (inside ++ [.ends ending])) := .scope hinside hends .nil
      simpa using hrest.nested_append hscope
    | ends ending =>
      cases around with
      | nil => cases h
      | cons e around =>
        obtain ⟨hends, hrest⟩ := Bool.and_eq_true_iff.1 h
        exact ⟨[], ending, ts, rfl, .nil, hends, ih hrest⟩

theorem Nested.endsAll_append {ts : List Turn} (h : Nested ts) (around : List Enclosure)
    (more : List Turn) : endsAll around (ts ++ more) = endsAll around more := by
  induction h generalizing around more with
  | nil => rfl
  | stays _ ih =>
    rw [List.cons_append, endsAll, ih]
  | scope _ hends _ ihinside ih =>
    rw [List.cons_append, endsAll, List.append_assoc, ihinside, List.cons_append, endsAll, hends,
      Bool.true_and, ih]

theorem nested_iff_endsAll {ts : List Turn} : Nested ts ↔ endsAll [] ts = true := by
  constructor
  · intro h
    rw [← List.append_nil ts, h.endsAll_append]
    rfl
  · exact nestedUnder_of_endsAll

instance (ts : List Turn) : Decidable (Nested ts) :=
  decidable_of_iff _ nested_iff_endsAll.symm

end Turn

/-! ## Scopes -/

/-- A row in front of a place has opened the given scopes, innermost first, and not ended them. -/
inductive Around : List Enclosure → List Turn → Prop where
  | nested {ts : List Turn} (h : Turn.Nested ts) : Around [] ts
  | opened {e : Enclosure} {around : List Enclosure} {ts inside : List Turn} (h : Around around ts)
      (hinside : Turn.Nested inside) : Around (e :: around) (ts ++ .opens e :: inside)

namespace Around

variable {around : List Enclosure} {ts : List Turn}

theorem foldl_apply (h : Around around ts) : ts.foldl Turn.apply [] = around := by
  induction h with
  | nested h => exact h.foldl_apply []
  | opened _ hinside ih =>
    rw [List.foldl_append, ih, List.foldl_cons, hinside.foldl_apply]
    rfl

theorem nested_append {front : List Turn} (hfront : Turn.Nested front) (h : Around around ts) :
    Around around (front ++ ts) := by
  induction h with
  | nested h => exact .nested (hfront.append h)
  | opened _ hinside ih =>
    rw [← List.append_assoc]
    exact .opened ih hinside

theorem opens_cons (e : Enclosure) (h : Around around ts) :
    Around (around ++ [e]) (.opens e :: ts) := by
  induction h with
  | nested h => exact .opened (.nested .nil) h
  | opened _ hinside ih => exact .opened ih hinside

end Around

/-- Each place of a nested row has its scopes. -/
theorem Turn.Nested.exists_around {ts front more : List Turn} (h : Nested ts)
    (hsplit : ts = front ++ more) : ∃ around, Around around front := by
  induction h generalizing front more with
  | nil => exact ⟨[], .nested (by rw [(List.append_eq_nil_iff.1 hsplit.symm).1]; exact .nil)⟩
  | stays _ ih =>
    cases front with
    | nil => exact ⟨[], .nested .nil⟩
    | cons t front =>
      obtain ⟨rfl, hrest⟩ := List.cons.inj hsplit
      obtain ⟨around, haround⟩ := ih hrest
      exact ⟨around, haround.nested_append .single⟩
  | @scope e ending inside ts hinside hends _ ihinside ih =>
    cases front with
    | nil => exact ⟨[], .nested .nil⟩
    | cons t front =>
      obtain ⟨rfl, hscope⟩ := List.cons.inj hsplit
      -- the place is behind the contents of the scope or among them
      rcases List.append_eq_append_iff.1 hscope with ⟨behind, rfl, hbehind⟩ | ⟨rest, hrest, -⟩
      · cases behind with
        | nil =>
          rw [List.append_nil]
          exact ⟨[e], .opened (.nested .nil) hinside⟩
        | cons t behind =>
          -- the scope has ended in front of the place
          obtain ⟨rfl, hrest⟩ := List.cons.inj hbehind
          obtain ⟨around, haround⟩ := ih hrest
          have hscope : Nested (.opens e :: (inside ++ [.ends ending])) := .scope hinside hends .nil
          exact ⟨around, by simpa using haround.nested_append hscope⟩
      · obtain ⟨around, haround⟩ := ihinside hrest
        exact ⟨around ++ [e], haround.opens_cons e⟩

/-! ## Methods -/

/-- What reads as the declaration of a generic method, with the scopes around it, innermost
first. -/
structure Member where
  around : List Enclosure
  name : String
  /-- Whether it is a declaration, as it reads. -/
  isDeclared : Bool
  deriving DecidableEq

namespace Member

/-- The full name of the namespace around the method. -/
def namespaceName (m : Member) : String :=
  ".".intercalate (m.around.reverse.filterMap Enclosure.namespaceName?)

/-- The name of the innermost type around the method. -/
def innermostType? (m : Member) : Option String :=
  m.around.findSome? Enclosure.typeName?

/-- The name of the innermost type with all types around it. -/
def typePath (m : Member) : String :=
  ".".intercalate (m.around.reverse.filterMap Enclosure.typeName?)

/-- Whether the method stands in the body of a type itself. -/
def isDirect (m : Member) : Bool :=
  m.around.head?.any (·.typeName?.isSome)

/-- The method under the name of its innermost type. -/
def genericMethod? (m : Member) : Option GenericMethod :=
  m.innermostType?.map fun typeName => ⟨m.namespaceName, typeName, m.name⟩

end Member

theorem filterMap_toList {α β : Type} (f : α → Option β) (o : Option α) :
    o.toList.filterMap f = (o.bind f).toList := by
  cases o with
  | none => rfl
  | some a => cases h : f a <;> simp [h]

/-- What a language makes of the places of a row. -/
structure Headings where
  /-- Whether a scope opens or ends at a place. -/
  turn : (before here : List Lexeme) → Turn
  /-- The namespace that has been declared for the rest of the file. -/
  fileNamespace? : (before here : List Lexeme) → Option String
  /-- The name of the generic method whose declaration a place reads as. -/
  methodName? : (before here : List Lexeme) → Option String
  methodName?_nil : ∀ before, methodName? before [] = none
  /-- Whether such a place is in a declaration. -/
  isDeclared : (before here : List Lexeme) → Bool

namespace Headings

variable (h : Headings)

/-- The turns at the places of a row with more of the file around it. -/
def turns (before : List Lexeme) : (ls rest : List Lexeme) → List Turn
  | [], _ => []
  | l :: ls, rest => h.turn before (l :: (ls ++ rest)) :: turns (l :: before) ls rest

/-- In a properly nested row every scope ends, and no other. -/
def IsNested (ls : List Lexeme) : Prop :=
  Turn.Nested (h.turns [] ls [])

instance (ls : List Lexeme) : Decidable (h.IsNested ls) :=
  inferInstanceAs (Decidable (Turn.Nested _))

/-- The scopes at a place: those that have opened, in the namespace of the file. -/
def scopesAt (opened : List Enclosure) (before here : List Lexeme) : List Enclosure :=
  opened ++ (h.fileNamespace? before here).toList.map .namespaceBody

/-- The method at a place, given the scopes that have opened there. -/
def member? (opened : List Enclosure) (before here : List Lexeme) : Option Member :=
  (h.methodName? before here).map fun name =>
    ⟨h.scopesAt opened before here, name, h.isDeclared before here⟩

/-- At some place the row reads as the declaration of a method, in the scopes of the place. -/
def Reads (ls : List Lexeme) (m : Member) : Prop :=
  ∃ front here opened, ls = front ++ here ∧ Around opened (h.turns [] front here) ∧
    h.member? opened front.reverse here = some m

/-- The methods that a row goes on with, found with a stack of scopes. -/
def membersFrom (opened : List Enclosure) (before : List Lexeme) : List Lexeme → List Member
  | [] => []
  | l :: ls =>
    (h.member? opened before (l :: ls)).toList ++
      membersFrom ((h.turn before (l :: ls)).apply opened) (l :: before) ls

/-- The methods in a row. -/
def members (ls : List Lexeme) : List Member :=
  h.membersFrom [] [] ls

/-! ## One pass -/

theorem turns_append (before ls more rest : List Lexeme) :
    h.turns before (ls ++ more) rest =
      h.turns before ls (more ++ rest) ++ h.turns (ls.reverse ++ before) more rest := by
  induction ls generalizing before with
  | nil => rfl
  | cons l ls ih =>
    rw [List.cons_append, turns, turns, ih, List.append_assoc, List.reverse_cons, List.append_assoc]
    rfl

theorem mem_membersFrom_iff {opened : List Enclosure} {before ls : List Lexeme} {m : Member} :
    m ∈ h.membersFrom opened before ls ↔ ∃ front here, ls = front ++ here ∧
      h.member? ((h.turns before front here).foldl Turn.apply opened) (front.reverse ++ before)
        here = some m := by
  induction ls generalizing opened before with
  | nil =>
    refine ⟨fun hm => absurd hm List.not_mem_nil, ?_⟩
    rintro ⟨front, here, hsplit, hm⟩
    obtain ⟨rfl, rfl⟩ := List.append_eq_nil_iff.1 hsplit.symm
    rw [member?, h.methodName?_nil] at hm
    cases hm
  | cons l ls ih =>
    rw [membersFrom, List.mem_append, ih, Option.mem_toList]
    -- the method stands at the first place of the row or at a later one
    constructor
    · rintro (hm | ⟨front, here, rfl, hm⟩)
      · exact ⟨[], l :: ls, rfl, hm⟩
      · refine ⟨l :: front, here, rfl, ?_⟩
        rwa [List.reverse_cons, List.append_assoc, List.singleton_append]
    · rintro ⟨front, here, hsplit, hm⟩
      cases front with
      | nil =>
        obtain rfl : l :: ls = here := hsplit
        exact .inl hm
      | cons l' front =>
        obtain ⟨rfl, rfl⟩ := List.cons.inj hsplit
        rw [List.reverse_cons, List.append_assoc, List.singleton_append] at hm
        exact .inr ⟨front, here, rfl, hm⟩

/-- In a properly nested row, one pass finds the methods with their scopes. -/
theorem mem_members_iff {ls : List Lexeme} (hnested : h.IsNested ls) {m : Member} :
    m ∈ h.members ls ↔ h.Reads ls m := by
  rw [members, mem_membersFrom_iff]
  simp only [List.append_nil]
  constructor
  · rintro ⟨front, here, rfl, hm⟩
    have hturns : h.turns [] (front ++ here) [] =
        h.turns [] front here ++ h.turns front.reverse here [] := by
      rw [turns_append, List.append_nil, List.append_nil]
    -- the row in front of the place is a part of a nested row, so it has its scopes
    obtain ⟨opened, haround⟩ := hnested.exists_around hturns
    rw [haround.foldl_apply] at hm
    exact ⟨front, here, opened, rfl, haround, hm⟩
  · rintro ⟨front, here, opened, rfl, haround, hm⟩
    rw [← haround.foldl_apply] at hm
    exact ⟨front, here, rfl, hm⟩

end Headings

end ZeroAlloc
