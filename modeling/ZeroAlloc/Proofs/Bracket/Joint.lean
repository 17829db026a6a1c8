import Mathlib.Data.List.Nodup
import Mathlib.Data.List.Pairwise
import ZeroAlloc.Proofs.Bracket
import ZeroAlloc.Proofs.Site.Extent
set_option autoImplicit false

/-! # Brackets that nest jointly

A search for a closing bracket counts the brackets of one pair. Where the brackets of several pairs
nest jointly, such a group holds a row that nests jointly too (`isGroup_of_group`). Rows that nest
cannot overlap in a row that does not (`Nests.of_overlap`), and a group has no nested beginning but
itself (`IsGroup.eq_nil_of_append`). -/

namespace ZeroAlloc

/-- Pairs of brackets that nest jointly. No two brackets are spelled alike. -/
structure Brackets where
  pairs : List BracketPair
  nodup : (pairs.flatMap fun b => [b.opening, b.closing]).Nodup := by decide

namespace Brackets

variable {k : Brackets}

/-- Whether the lexeme opens a group. -/
def opens (k : Brackets) (l : Lexeme) : Bool :=
  k.pairs.any (l.isPunct ·.opening)

/-- Whether the lexeme closes a group. -/
def closes (k : Brackets) (l : Lexeme) : Bool :=
  k.pairs.any (l.isPunct ·.closing)

/-- The closing brackets that are due behind a lexeme, nearest first, given those due before it.
There are none if it is a closing bracket that is not the next one due. -/
def step (k : Brackets) (due : List String) (l : Lexeme) : Option (List String) :=
  match k.pairs.find? (l.isPunct ·.opening) with
  | some b => some (b.closing :: due)
  | none =>
    if !k.closes l then some due
    else if due.head?.any l.isPunct then some due.tail
    else none

/-- The closing brackets that are due behind a row, given those due before it. -/
def due? (k : Brackets) (due : List String) (ls : List Lexeme) : Option (List String) :=
  ls.foldlM k.step due

/-- The brackets of the row are jointly well nested. -/
def Nests (k : Brackets) (ls : List Lexeme) : Prop :=
  k.due? [] ls = some []

instance (k : Brackets) (ls : List Lexeme) : Decidable (k.Nests ls) :=
  inferInstanceAs (Decidable (k.due? [] ls = some []))

/-- The row is the rest of one that nests. -/
def Completes (k : Brackets) (ls : List Lexeme) : Prop :=
  ∃ due, k.due? due ls = some []

/-! ## Spelling -/

theorem disjoint_of_ne {b b' : BracketPair} (hb : b ∈ k.pairs) (hb' : b' ∈ k.pairs)
    (hne : b ≠ b') : List.Disjoint [b.opening, b.closing] [b'.opening, b'.closing] := by
  have hsymm : Std.Symm (Function.onFun List.Disjoint fun b : BracketPair =>
      [b.opening, b.closing]) := ⟨fun _ _ h _ hl hr => h hr hl⟩
  exact (List.nodup_flatMap.1 k.nodup).2.forall hb hb' hne

theorem opening_ne_closing {b b' : BracketPair} (hb : b ∈ k.pairs) (hb' : b' ∈ k.pairs) :
    b.opening ≠ b'.closing := by
  by_cases heq : b = b'
  · subst heq
    simpa using (List.nodup_flatMap.1 k.nodup).1 b hb
  · intro hsame
    exact disjoint_of_ne hb hb' heq List.mem_cons_self (by simp [hsame])

theorem eq_of_opening {b b' : BracketPair} (hb : b ∈ k.pairs) (hb' : b' ∈ k.pairs)
    (h : b.opening = b'.opening) : b = b' := by
  by_contra hne
  exact disjoint_of_ne hb hb' hne List.mem_cons_self (by simp [h])

theorem eq_of_closing {b b' : BracketPair} (hb : b ∈ k.pairs) (hb' : b' ∈ k.pairs)
    (h : b.closing = b'.closing) : b = b' := by
  by_contra hne
  exact disjoint_of_ne hb hb' hne (List.mem_cons_of_mem _ List.mem_cons_self) (by simp [h])

/-- Words open and close nothing. -/
theorem plain_of_isIdent {l : Lexeme} (h : l.isIdent = true) :
    k.opens l = false ∧ k.closes l = false := by
  have hpunct (p : String) : l.isPunct p = false := by
    simp only [Lexeme.isIdent, decide_eq_true_eq] at h
    simp [Lexeme.isPunct, h]
  constructor
  · simp [opens, hpunct]
  · simp [closes, hpunct]

theorem plain_of_isPunct {l : Lexeme} {p : String} (h : l.isPunct p = true)
    (hp : ∀ b ∈ k.pairs, b.opening ≠ p ∧ b.closing ≠ p) :
    k.opens l = false ∧ k.closes l = false := by
  constructor
  · refine List.any_eq_false.2 fun b hb => ?_
    rw [BracketPair.isPunct_eq_false (hp b hb).1 h]
    exact Bool.false_ne_true
  · refine List.any_eq_false.2 fun b hb => ?_
    rw [BracketPair.isPunct_eq_false (hp b hb).2 h]
    exact Bool.false_ne_true

theorem opens_eq_false_of_closes {l : Lexeme} (h : k.closes l = true) : k.opens l = false := by
  obtain ⟨b, hb, hclose⟩ := List.any_eq_true.1 h
  rw [Bool.eq_false_iff]
  intro hopens
  obtain ⟨b', hb', hopen⟩ := List.any_eq_true.1 hopens
  rw [BracketPair.isPunct_eq_false (opening_ne_closing hb' hb) hclose] at hopen
  cases hopen

/-! ## One lexeme -/

theorem step_of_opening {b : BracketPair} (hb : b ∈ k.pairs) {l : Lexeme}
    (h : l.isPunct b.opening = true) (due : List String) :
    k.step due l = some (b.closing :: due) := by
  cases hfind : k.pairs.find? (l.isPunct ·.opening) with
  | none => exact absurd h (by simpa using List.find?_eq_none.1 hfind b hb)
  | some b' =>
    have hopen : l.isPunct b'.opening = true := by simpa using List.find?_some hfind
    have hsame : b' = b := by
      refine eq_of_opening (List.mem_of_find?_eq_some hfind) hb ?_
      simp only [Lexeme.isPunct, Bool.and_eq_true, decide_eq_true_eq] at hopen h
      rw [← hopen.2, h.2]
    simp only [step, hfind, hsame]

theorem find?_eq_none_of_opens {l : Lexeme} (h : k.opens l = false) :
    k.pairs.find? (l.isPunct ·.opening) = none := by
  rw [List.find?_eq_none]
  simpa [opens] using h

theorem step_of_closing {b : BracketPair} (hb : b ∈ k.pairs) {l : Lexeme}
    (h : l.isPunct b.closing = true) (due : List String) :
    k.step (b.closing :: due) l = some due := by
  have hcloses : k.closes l = true := List.any_eq_true.2 ⟨b, hb, h⟩
  simp [step, find?_eq_none_of_opens (opens_eq_false_of_closes hcloses), hcloses, h]

theorem step_of_plain {l : Lexeme} (hopens : k.opens l = false) (hcloses : k.closes l = false)
    (due : List String) : k.step due l = some due := by
  simp [step, find?_eq_none_of_opens hopens, hcloses]

/-- What a lexeme can do: open a group, close the innermost one, or neither. -/
theorem step_cases {due due' : List String} {l : Lexeme} (h : k.step due l = some due') :
    (∃ b ∈ k.pairs, l.isPunct b.opening = true ∧ due' = b.closing :: due) ∨
      (∃ b ∈ k.pairs, l.isPunct b.closing = true ∧ due = b.closing :: due') ∨
      (k.opens l = false ∧ k.closes l = false ∧ due' = due) := by
  unfold step at h
  split at h
  · rename_i b hfind
    cases h
    have hopen : l.isPunct b.opening = true := by simpa using List.find?_some hfind
    exact .inl ⟨b, List.mem_of_find?_eq_some hfind, hopen, rfl⟩
  · rename_i hfind
    have hopens : k.opens l = false := by simpa [opens, List.find?_eq_none] using hfind
    split at h
    · rename_i hcloses
      cases h
      exact .inr (.inr ⟨hopens, by simpa using hcloses, rfl⟩)
    · rename_i hcloses
      obtain ⟨b, hb, hclose⟩ := List.any_eq_true.1 (show k.closes l = true by simpa using hcloses)
      split at h
      · rename_i hdue
        cases h
        cases due with
        | nil => cases hdue
        | cons closing due =>
          refine .inr (.inl ⟨b, hb, hclose, ?_⟩)
          change l.isPunct closing = true at hdue
          simp only [Lexeme.isPunct, Bool.and_eq_true, decide_eq_true_eq] at hdue hclose
          rw [← hdue.2, ← hclose.2]
          rfl
      · cases h

/-- Brackets that are due further out make no difference. -/
theorem step_append {due due' : List String} {l : Lexeme} (h : k.step due l = some due')
    (outer : List String) : k.step (due ++ outer) l = some (due' ++ outer) := by
  rcases step_cases h with ⟨b, hb, hopen, rfl⟩ | ⟨b, hb, hclose, rfl⟩ | ⟨hopens, hcloses, rfl⟩
  · exact step_of_opening hb hopen _
  · exact step_of_closing hb hclose _
  · exact step_of_plain hopens hcloses _

/-- The number of brackets that are due. -/
theorem length_of_step {due due' : List String} {l : Lexeme} (h : k.step due l = some due') :
    due'.length =
      if k.opens l then due.length + 1 else if k.closes l then due.length - 1 else due.length := by
  rcases step_cases h with ⟨b, hb, hopen, rfl⟩ | ⟨b, hb, hclose, rfl⟩ | ⟨hopens, hcloses, rfl⟩
  · have hopens : k.opens l = true := List.any_eq_true.2 ⟨b, hb, hopen⟩
    rw [hopens]
    rfl
  · have hcloses : k.closes l = true := List.any_eq_true.2 ⟨b, hb, hclose⟩
    rw [opens_eq_false_of_closes hcloses, hcloses]
    rfl
  · rw [hopens, hcloses]
    rfl

/-! ## Rows -/

theorem due?_cons (due : List String) (l : Lexeme) (ls : List Lexeme) :
    k.due? due (l :: ls) = (k.step due l).bind fun due => k.due? due ls := by
  rw [due?, List.foldlM_cons]
  rfl

theorem due?_append (due : List String) (ls more : List Lexeme) :
    k.due? due (ls ++ more) = (k.due? due ls).bind fun due => k.due? due more := by
  rw [due?, List.foldlM_append]
  rfl

theorem due?_append_due {due due' : List String} {ls : List Lexeme}
    (h : k.due? due ls = some due') (outer : List String) :
    k.due? (due ++ outer) ls = some (due' ++ outer) := by
  induction ls generalizing due with
  | nil =>
    cases h
    rfl
  | cons l ls ih =>
    rw [due?_cons] at h ⊢
    obtain ⟨next, hstep, hrest⟩ := Option.bind_eq_some_iff.1 h
    rw [step_append hstep outer]
    exact ih hrest

namespace Nests

variable {x y z : List Lexeme}

theorem nil : k.Nests [] := rfl

/-- A nested row changes nothing about what is due. -/
theorem due? (h : k.Nests x) (due : List String) : k.due? due x = some due :=
  due?_append_due h due

theorem append (hx : k.Nests x) (hy : k.Nests y) : k.Nests (x ++ y) := by
  rw [Nests, due?_append, hx, Option.bind_some, hy]

theorem of_append_left (h : k.Nests (x ++ y)) (hx : k.Nests x) : k.Nests y := by
  rwa [Nests, due?_append, hx, Option.bind_some] at h

theorem of_append_right (h : k.Nests (x ++ y)) (hy : k.Nests y) : k.Nests x := by
  rw [Nests, due?_append] at h
  obtain ⟨due, hx, hdue⟩ := Option.bind_eq_some_iff.1 h
  rw [hy.due? due] at hdue
  rw [Nests, hx, hdue]

/-- What two nested rows share is nested, and so is the rest of each. -/
theorem of_overlap (hxy : k.Nests (x ++ y)) (hyz : k.Nests (y ++ z)) :
    k.Nests x ∧ k.Nests y ∧ k.Nests z := by
  have hy : k.Nests y := by
    obtain ⟨outer, hx, hy⟩ := Option.bind_eq_some_iff.1 ((due?_append ..).symm.trans hxy)
    obtain ⟨due, hdue, -⟩ := Option.bind_eq_some_iff.1 ((due?_append ..).symm.trans hyz)
    -- read alone, the shared row leaves `due`; behind `x` it leaves nothing
    have hboth := due?_append_due hdue outer
    rw [List.nil_append, hy, Option.some.injEq] at hboth
    rw [Nests, hdue, (List.append_eq_nil_iff.1 hboth.symm).1]
  exact ⟨hxy.of_append_right hy, hy, hyz.of_append_left hy⟩

theorem of_plain {l : Lexeme} (hopens : k.opens l = false) (hcloses : k.closes l = false) :
    k.Nests [l] := by
  rw [Nests, due?_cons, step_of_plain hopens hcloses]
  rfl

theorem of_isIdent {l : Lexeme} (h : l.isIdent = true) : k.Nests [l] :=
  of_plain (plain_of_isIdent h).1 (plain_of_isIdent h).2

end Nests

theorem Completes.of_append {x y : List Lexeme} (h : k.Completes (x ++ y)) : k.Completes y := by
  obtain ⟨due, h⟩ := h
  rw [due?_append] at h
  obtain ⟨due', -, h⟩ := Option.bind_eq_some_iff.1 h
  exact ⟨due', h⟩

theorem Completes.of_suffix {ls more : List Lexeme} (h : k.Completes ls) (hmore : more <:+ ls) :
    k.Completes more := by
  obtain ⟨passed, rfl⟩ := hmore
  exact h.of_append

/-- Where a bracket is due, the row goes on with what it holds and then the bracket. -/
theorem exists_close_of_due {inner outer : List String} {closing : String} {ls : List Lexeme}
    (h : k.due? (inner ++ closing :: outer) ls = some []) :
    ∃ inside close rest, ls = inside ++ close :: rest ∧ k.due? inner inside = some [] ∧
      close.isPunct closing = true ∧ k.due? outer rest = some [] := by
  -- `inner` are the brackets that the row itself has opened and that come due before `closing`
  induction ls generalizing inner with
  | nil => cases inner <;> cases h
  | cons l ls ih =>
    rw [due?_cons] at h
    obtain ⟨next, hstep, hrest⟩ := Option.bind_eq_some_iff.1 h
    rcases step_cases hstep with ⟨b, hb, hopen, rfl⟩ | ⟨b, hb, hclose, hdue⟩ |
      ⟨hopens, hcloses, rfl⟩
    · obtain ⟨inside, close, rest, rfl, hinside, hclose, hrest⟩ :=
        ih (show k.due? ((b.closing :: inner) ++ closing :: outer) ls = some [] from hrest)
      refine ⟨l :: inside, close, rest, rfl, ?_, hclose, hrest⟩
      rw [due?_cons, step_of_opening hb hopen]
      exact hinside
    · cases inner with
      | nil =>
        obtain ⟨rfl, rfl⟩ := List.cons.inj hdue
        exact ⟨[], l, ls, rfl, rfl, hclose, hrest⟩
      | cons due inner =>
        obtain ⟨rfl, rfl⟩ := List.cons.inj hdue
        obtain ⟨inside, close, rest, rfl, hinside, hend, hrest⟩ := ih hrest
        refine ⟨l :: inside, close, rest, rfl, ?_, hend, hrest⟩
        rw [due?_cons, step_of_closing hb hclose]
        exact hinside
    · obtain ⟨inside, close, rest, rfl, hinside, hclose, hrest⟩ := ih hrest
      refine ⟨l :: inside, close, rest, rfl, ?_, hclose, hrest⟩
      rw [due?_cons, step_of_plain hopens hcloses]
      exact hinside

/-! ## Groups -/

/-- The row is a bracket, a nested row and the bracket that closes the first one. -/
inductive IsGroup (k : Brackets) : List Lexeme → Prop where
  | intro {b : BracketPair} {opening close : Lexeme} {inside : List Lexeme} (hb : b ∈ k.pairs)
      (hopen : opening.isPunct b.opening = true) (hinside : k.Nests inside)
      (hclose : close.isPunct b.closing = true) : IsGroup k (opening :: (inside ++ [close]))

/-- The row is a sequence of groups. -/
inductive AreGroups (k : Brackets) : List Lexeme → Prop where
  | nil : AreGroups k []
  | cons {group groups : List Lexeme} (h : k.IsGroup group) (hmore : AreGroups k groups) :
      AreGroups k (group ++ groups)

/-- The row starts with an opening bracket and ends with a closing one. -/
structure IsEnclosed (k : Brackets) (ls : List Lexeme) : Prop where
  head : ls.head?.any k.opens = true
  last : ls.getLast?.any k.closes = true

/-- What ends with groups ends with a closing bracket. -/
theorem IsEnclosed.last_append {ls : List Lexeme} (h : k.IsEnclosed ls) (front : List Lexeme) :
    (front ++ ls).getLast?.any k.closes = true := by
  cases hlast : ls.getLast? with
  | none =>
    have := h.last
    rw [hlast] at this
    cases this
  | some close =>
    rw [List.getLast?_append, hlast, Option.some_or, ← hlast]
    exact h.last

theorem IsEnclosed.append {ls more : List Lexeme} (h : k.IsEnclosed ls)
    (hmore : k.IsEnclosed more) : k.IsEnclosed (ls ++ more) := by
  refine ⟨?_, hmore.last_append ls⟩
  cases ls with
  | nil => cases h.head
  | cons l ls => exact h.head

theorem IsGroup.isEnclosed {group : List Lexeme} (h : k.IsGroup group) : k.IsEnclosed group := by
  cases h with
  | @intro b opening close inside hb hopen hinside hclose =>
    have hcloses : k.closes close = true := List.any_eq_true.2 ⟨b, hb, hclose⟩
    exact ⟨List.any_eq_true.2 ⟨b, hb, hopen⟩, by simpa [List.getLast?_cons] using hcloses⟩

theorem IsGroup.nests {group : List Lexeme} (h : k.IsGroup group) : k.Nests group := by
  cases h with
  | @intro b opening close inside hb hopen hinside hclose =>
    rw [Nests, due?_cons, step_of_opening hb hopen, Option.bind_some, due?_append,
      hinside.due? _, Option.bind_some, due?_cons, step_of_closing hb hclose]
    rfl

/-- A nested beginning of a group is the whole group. -/
theorem IsGroup.eq_nil_of_append {x y : List Lexeme} (h : k.IsGroup (x ++ y)) (hx : k.Nests x)
    (hne : x ≠ []) : y = [] := by
  obtain ⟨first, x, rfl⟩ := List.exists_cons_of_ne_nil hne
  rw [List.cons_append] at h
  generalize hrow : x ++ y = row at h
  cases h with
  | @intro b _ close inside hb hopen hinside hclose =>
    rcases List.append_eq_append_iff.1 hrow with ⟨more, rfl, -⟩ | ⟨more, rfl, hmore⟩
    · -- the closing bracket is still due behind `x`
      obtain ⟨due, hdue, -⟩ := Option.bind_eq_some_iff.1 ((due?_append ..).symm.trans hinside)
      rw [Nests, due?_cons, step_of_opening hb hopen, Option.bind_some] at hx
      have hstill := due?_append_due hdue [b.closing]
      rw [List.nil_append, hx] at hstill
      simp at hstill
    · cases more with
      | nil =>
        rw [List.append_nil, Nests, due?_cons, step_of_opening hb hopen, Option.bind_some,
          hinside.due? _] at hx
        cases hx
      | cons l more =>
        rw [List.cons_append] at hmore
        exact (List.append_eq_nil_iff.1 (List.cons.inj hmore).2.symm).2

theorem AreGroups.singleton {group : List Lexeme} (h : k.IsGroup group) : k.AreGroups group := by
  simpa using AreGroups.cons h .nil

theorem AreGroups.append {groups more : List Lexeme} (h : k.AreGroups groups)
    (hmore : k.AreGroups more) : k.AreGroups (groups ++ more) := by
  induction h with
  | nil => exact hmore
  | cons h _ ih =>
    rw [List.append_assoc]
    exact .cons h ih

theorem AreGroups.nests {groups : List Lexeme} (h : k.AreGroups groups) : k.Nests groups := by
  induction h with
  | nil => exact .nil
  | cons h _ ih => exact h.nests.append ih

theorem AreGroups.isEnclosed {groups : List Lexeme} (h : k.AreGroups groups) (hne : groups ≠ []) :
    k.IsEnclosed groups := by
  induction h with
  | nil => exact absurd rfl hne
  | @cons group groups h hmore ih =>
    by_cases hnil : groups = []
    · rw [hnil, List.append_nil]
      exact h.isEnclosed
    · exact h.isEnclosed.append (ih hnil)

/-- A row of groups can only be cut between two of them, if the parts are to be nested. -/
theorem AreGroups.of_append {x y : List Lexeme} (h : k.AreGroups (x ++ y)) (hx : k.Nests x) :
    k.AreGroups x ∧ k.AreGroups y := by
  generalize hrow : x ++ y = row at h
  induction h generalizing x with
  | nil =>
    obtain ⟨rfl, rfl⟩ := List.append_eq_nil_iff.1 hrow
    exact ⟨.nil, .nil⟩
  | @cons group groups h hmore ih =>
    rcases List.append_eq_append_iff.1 hrow with ⟨rest, rfl, rfl⟩ | ⟨rest, rfl, rfl⟩
    · by_cases hne : x = []
      · rw [hne] at h
        rw [hne]
        exact ⟨.nil, .cons h hmore⟩
      · obtain rfl := h.eq_nil_of_append hx hne
        rw [List.append_nil] at h
        exact ⟨.singleton h, hmore⟩
    · obtain ⟨hrest, hy⟩ := ih (hx.of_append_left h.nests) rfl
      exact ⟨.cons h hrest, hy⟩

/-! ## Lexemes outside of groups -/

/-- The row is nested, and lexemes of the kind stand in it inside groups only. -/
structure OnlyInside (k : Brackets) (p : Lexeme → Bool) (ls : List Lexeme) : Prop where
  nests : k.Nests ls
  outside : ∀ before l behind, ls = before ++ l :: behind → k.Nests before → p l = false

namespace OnlyInside

variable {p : Lexeme → Bool} {ls more : List Lexeme}

instance : Decidable (k.OnlyInside p ls) :=
  decidable_of_iff
    (k.Nests ls ∧ ∀ i : Fin ls.length, k.Nests (ls.take i) → p ls[i] = false) <| by
      constructor
      · rintro ⟨hnests, houtside⟩
        refine ⟨hnests, fun before l behind hrow hbefore => ?_⟩
        subst hrow
        simpa [hbefore] using houtside ⟨before.length, by simp⟩
      · exact fun h => ⟨h.nests, fun i hi => h.outside _ _ (ls.drop (i + 1)) (by simp) hi⟩

theorem nil : k.OnlyInside p [] :=
  ⟨.nil, fun before l behind hrow => by cases before <;> cases hrow⟩

theorem append (h : k.OnlyInside p ls) (hmore : k.OnlyInside p more) :
    k.OnlyInside p (ls ++ more) := by
  refine ⟨h.nests.append hmore.nests, fun before l behind hrow hbefore => ?_⟩
  rcases List.append_eq_append_iff.1 hrow with ⟨before, rfl, rfl⟩ | ⟨rest, rfl, hrest⟩
  · exact hmore.outside before l behind rfl (hbefore.of_append_left h.nests)
  · cases rest with
    | nil => exact hmore.outside [] l behind hrest.symm .nil
    | cons first rest =>
      obtain ⟨rfl, -⟩ := List.cons.inj hrest
      exact h.outside before l rest rfl hbefore

theorem singleton {l : Lexeme} (hopens : k.opens l = false) (hcloses : k.closes l = false)
    (hl : p l = false) : k.OnlyInside p [l] := by
  refine ⟨.of_plain hopens hcloses, fun before l' behind hrow _ => ?_⟩
  cases before with
  | nil =>
    obtain ⟨rfl, -⟩ := List.cons.inj hrow
    exact hl
  | cons first before => cases before <;> cases hrow

theorem of_isPunct (hp : ∀ l, p l = true → l.isIdent = true) {l : Lexeme} {q : String}
    (h : l.isPunct q = true) (hq : ∀ b ∈ k.pairs, b.opening ≠ q ∧ b.closing ≠ q) :
    k.OnlyInside p [l] := by
  obtain ⟨hopens, hcloses⟩ := plain_of_isPunct h hq
  refine singleton hopens hcloses (Bool.eq_false_iff.2 fun hl => ?_)
  have hident := hp l hl
  simp only [Lexeme.isPunct, Bool.and_eq_true, decide_eq_true_eq] at h
  simp [Lexeme.isIdent, h.1] at hident

/-- The first lexeme of a group is a bracket, and all others are inside. -/
theorem of_isGroup (hp : ∀ l, p l = true → l.isIdent = true) (h : k.IsGroup ls) :
    k.OnlyInside p ls := by
  refine ⟨h.nests, fun before l behind hrow hbefore => ?_⟩
  rw [hrow] at h
  by_cases hnil : before = []
  · rw [hnil] at h
    have hopens : k.opens l = true := h.isEnclosed.head
    rw [Bool.eq_false_iff]
    intro hl
    rw [(plain_of_isIdent (hp l hl)).1] at hopens
    cases hopens
  · cases h.eq_nil_of_append hbefore hnil

end OnlyInside

/-! ## Groups of one pair -/

/-- A row that nests jointly nests for each pair. -/
theorem Nests.nested {b : BracketPair} (hb : b ∈ k.pairs) {ls : List Lexeme} (h : k.Nests ls) :
    b.Nested ls := by
  induction hlength : ls.length using Nat.strongRecOn generalizing ls with
  | _ n ih =>
    subst hlength
    cases ls with
    | nil => exact .nil
    | cons l ls =>
      rw [Nests, due?_cons] at h
      obtain ⟨next, hstep, hrest⟩ := Option.bind_eq_some_iff.1 h
      rcases step_cases hstep with ⟨b', hb', hopen, rfl⟩ | ⟨b', hb', hclose, hdue⟩ |
        ⟨hopens, hcloses, rfl⟩
      · obtain ⟨inside, close, rest, rfl, hinside, hclose, hrest⟩ :=
          exists_close_of_due (show k.due? ([] ++ b'.closing :: []) ls = some [] from hrest)
        have hlength : inside.length < (l :: (inside ++ close :: rest)).length ∧
            rest.length < (l :: (inside ++ close :: rest)).length := by
          simp only [List.length_cons, List.length_append]
          omega
        have hinside := ih _ hlength.1 hinside rfl
        have hrest := ih _ hlength.2 hrest rfl
        by_cases hsame : b' = b
        · subst hsame
          exact .group hopen hinside hclose hrest
        · -- the brackets of another pair count for nothing
          have hne {p q : String} {m : Lexeme} (hpq : p ≠ q) (hm : m.isPunct q = true) :
              m.isPunct p = false := BracketPair.isPunct_eq_false hpq hm
          refine .plain (hne (fun h => hsame (eq_of_opening hb' hb h.symm)) hopen)
            (hne (opening_ne_closing hb' hb).symm hopen) (hinside.append ?_)
          exact .plain (hne (opening_ne_closing hb hb') hclose)
            (hne (fun h => hsame (eq_of_closing hb' hb h.symm)) hclose) hrest
      · cases hdue
      · have hopen : l.isPunct b.opening = false := by
          simpa using List.any_eq_false.1 hopens b hb
        have hclose : l.isPunct b.closing = false := by
          simpa using List.any_eq_false.1 hcloses b hb
        exact .plain hopen hclose (ih _ (Nat.lt_succ_self _) hrest rfl)

/-- A group that the brackets of one pair make is a group for all. -/
theorem isGroup_of_group {b : BracketPair} (hb : b ∈ k.pairs) {ls inside rest : List Lexeme}
    (hls : k.Completes ls) (h : b.group? ls = some (inside, rest)) :
    ∃ group, ls = group ++ rest ∧ k.IsGroup group ∧ group.length = inside.length + 2 := by
  obtain ⟨opening, close, hopen, hclose, rfl⟩ := BracketPair.eq_append_of_group h
  obtain ⟨due, hdue⟩ := hls
  rw [List.cons_append, due?_cons, step_of_opening hb hopen, Option.bind_some] at hdue
  obtain ⟨inside', close', rest', hrow, hinside', hclose', -⟩ :=
    exists_close_of_due (show k.due? ([] ++ b.closing :: due) _ = some [] from hdue)
  -- the search of the one pair ends at the bracket that was due
  have hsearch : b.untilClose 0 (inside ++ close :: rest) = some (inside', rest') :=
    (BracketPair.untilClose_eq_some_iff (opening_ne_closing hb hb)).2
      ⟨close', hclose', hrow, Nests.nested hb hinside'⟩
  have hfound : b.untilClose 0 (inside ++ close :: rest) = some (inside, rest) := by
    rw [List.cons_append, BracketPair.group?, if_pos hopen] at h
    exact h
  obtain ⟨rfl, rfl⟩ := Prod.mk.inj (Option.some.inj (hsearch.symm.trans hfound))
  refine ⟨opening :: (inside' ++ [close]), by simp, .intro hb hopen hinside' hclose, by simp⟩

/-- The levels of an array type are groups. -/
theorem areGroups_of_arrayLevels {b : BracketPair} (hb : b ∈ k.pairs)
    {isLevel : List Lexeme → Bool} {ls rest : List Lexeme} {levels : List ArrayLevel}
    (hls : k.Completes ls) (h : arrayLevels b isLevel ls = some (levels, rest)) :
    ∃ groups, ls = groups ++ rest ∧ k.AreGroups groups ∧ (levels ≠ [] → groups ≠ []) := by
  fun_induction arrayLevels b isLevel ls generalizing levels with
  | case1 => cases h
  | case2 ls _ inside after hgroup ih =>
    obtain ⟨⟨more, r⟩, hmore, he⟩ := Option.map_eq_some_iff.1 h
    cases he
    obtain ⟨group, rfl, hfirst, hlength⟩ := isGroup_of_group hb hls hgroup
    obtain ⟨groups, rfl, hgroups, -⟩ := ih hls.of_append hmore
    refine ⟨group ++ groups, by rw [List.append_assoc], .cons hfirst hgroups, fun _ hnil => ?_⟩
    rw [(List.append_eq_nil_iff.1 hnil).1] at hlength
    cases hlength
  | case3 =>
    cases h
    exact ⟨[], rfl, .nil, fun hne => absurd rfl hne⟩

/-- Line breaks count for nothing. -/
theorem due?_withoutNewlines (due : List String) (ls : List Lexeme) :
    k.due? due (withoutNewlines ls) = k.due? due ls := by
  induction ls generalizing due with
  | nil => rfl
  | cons l ls ih =>
    rw [withoutNewlines, List.filter_cons, due?_cons]
    split
    · rw [due?_cons]
      exact congrArg _ (funext ih)
    · rename_i hline
      have hpunct (p : String) : l.isPunct p = false := by
        simp only [Lexeme.isNewline, Bool.not_eq_true', decide_eq_false_iff_not,
          Decidable.not_not] at hline
        simp [Lexeme.isPunct, hline]
      rw [step_of_plain (by simp [opens, hpunct]) (by simp [closes, hpunct])]
      exact ih due

end Brackets

end ZeroAlloc
