import ZeroAlloc.Proofs.Bracket.Joint
set_option autoImplicit false

/-! # Sites among nested brackets

Where brackets nest jointly, the lexemes of a site are a bracketed list, a name with one, or the
first word of a creation expression, what it names and then lists (`Stretch`). Two such stretches
cannot overlap unless one lies within the other (`Stretch.not_overlap`), so of two sites one ends
before the other starts, or one holds the other (`Site.nests_of_isStretch`). -/

namespace ZeroAlloc

variable {k : Brackets} {Creates : Lexeme → List Lexeme → Prop}

/-! ## Stretches -/

/-- The lexemes of a site. What a creation expression may name behind its first word is up to the
language. -/
inductive Stretch (k : Brackets) (Creates : Lexeme → List Lexeme → Prop) : List Lexeme → Prop where
  | list {group : List Lexeme} (h : k.IsGroup group) : Stretch k Creates group
  | call {name : Lexeme} {group : List Lexeme} (hname : name.isIdent = true)
      (h : k.IsGroup group) : Stretch k Creates (name :: group)
  | creation {new : Lexeme} {parts groups : List Lexeme} (hnew : new.isIdent = true)
      (hcreates : Creates new parts) (hparts : k.Nests parts) (h : k.AreGroups groups)
      (hne : groups ≠ []) : Stretch k Creates (new :: (parts ++ groups))

/-- No creation expression that starts in what another one names goes on behind it. -/
def Apart (k : Brackets) (Creates : Lexeme → List Lexeme → Prop) : Prop :=
  ∀ {new new' : Lexeme} {before behind parts groups rest : List Lexeme},
    Creates new (before ++ new' :: behind) → Creates new' parts → k.Nests before →
    k.Nests behind → k.Nests parts → k.AreGroups groups → behind ++ rest ≠ parts ++ groups

namespace Stretch

theorem nests {ls : List Lexeme} (h : Stretch k Creates ls) : k.Nests ls := by
  cases h with
  | list h => exact h.nests
  | call hname h => exact (Brackets.Nests.of_isIdent hname).append h.nests
  | creation hnew _ hparts h =>
    exact (Brackets.Nests.of_isIdent hnew).append (hparts.append h.nests)

theorem getLast?_closes {ls : List Lexeme} (h : Stretch k Creates ls) :
    ls.getLast?.any k.closes = true := by
  cases h with
  | list h => exact h.isEnclosed.last
  | @call name _ _ h => exact h.isEnclosed.last_append [name]
  | @creation new parts _ _ _ _ h hne => exact (h.isEnclosed hne).last_append (new :: parts)

/-- No row of groups starts with a word. -/
theorem not_areGroups_cons {l : Lexeme} {ls : List Lexeme} (hl : l.isIdent = true) :
    ¬k.AreGroups (l :: ls) := by
  intro h
  have hopens : k.opens l = true := (h.isEnclosed (List.cons_ne_nil _ _)).head
  rw [(Brackets.plain_of_isIdent hl).1] at hopens
  cases hopens

/-- A nested row that ends a group is the whole group. -/
theorem not_isGroup_append {x y : List Lexeme} (hx : k.Nests x) (hnx : x ≠ []) (hny : y ≠ []) :
    ¬k.IsGroup (x ++ y) :=
  fun h => hny (h.eq_nil_of_append hx hnx)

/-- A creation expression does not start inside another stretch and go on behind its end. -/
theorem not_creation_behind (hapart : Apart k Creates) {x more rest : List Lexeme} {new : Lexeme}
    {parts groups : List Lexeme} (h : Stretch k Creates (x ++ new :: more))
    (hnew : new.isIdent = true) (hcreates : Creates new parts) (hparts : k.Nests parts)
    (hgroups : k.AreGroups groups) (hx : k.Nests x) (hnx : x ≠ []) :
    more ++ rest ≠ parts ++ groups := by
  generalize hrow : x ++ new :: more = row at h
  cases h with
  | list h =>
    rw [← hrow] at h
    exact absurd h (not_isGroup_append hx hnx (List.cons_ne_nil _ _))
  | call hname h =>
    obtain ⟨first, x, rfl⟩ := List.exists_cons_of_ne_nil hnx
    obtain ⟨rfl, rfl⟩ := List.cons.inj hrow
    have hx : k.Nests x := hx.of_append_left (x := [first]) (.of_isIdent hname)
    by_cases hnil : x = []
    · rw [hnil] at h
      exact absurd (.singleton h) (not_areGroups_cons hnew)
    · exact absurd h (not_isGroup_append hx hnil (List.cons_ne_nil _ _))
  | @creation first named lists hfirst hfirstCreates hnamed hlists hne =>
    obtain ⟨first, x, rfl⟩ := List.exists_cons_of_ne_nil hnx
    obtain ⟨rfl, htail⟩ := List.cons.inj hrow
    have hx : k.Nests x := hx.of_append_left (x := [first]) (.of_isIdent hfirst)
    rcases List.append_eq_append_iff.1 htail with ⟨inside, rfl, hinside⟩ | ⟨outside, rfl, rfl⟩
    · cases inside with
      | nil =>
        rw [List.nil_append] at hinside
        rw [← hinside] at hlists
        exact absurd hlists (not_areGroups_cons hnew)
      | cons l behind =>
        obtain ⟨rfl, rfl⟩ := List.cons.inj hinside
        have hbehind : k.Nests behind :=
          (hnamed.of_append_left hx).of_append_left (x := [new]) (.of_isIdent hnew)
        intro heq
        have hrest : behind ++ (lists ++ rest) = parts ++ groups :=
          (List.append_assoc ..).symm.trans heq
        exact hapart hfirstCreates hcreates hx hbehind hparts hgroups hrest
    · exact absurd (hlists.of_append (hx.of_append_left hnamed)).2 (not_areGroups_cons hnew)

/-- Two stretches do not share lexemes unless one of them lies within the other. -/
theorem not_overlap (hapart : Apart k Creates) {x y z : List Lexeme}
    (hxy : Stretch k Creates (x ++ y)) (hyz : Stretch k Creates (y ++ z)) (hx : x ≠ [])
    (hy : y ≠ []) (hz : z ≠ []) : False := by
  obtain ⟨hnx, hny, hnz⟩ := hxy.nests.of_overlap hyz.nests
  have hlast : y.getLast?.any k.closes = true := by
    have := hxy.getLast?_closes
    rwa [List.getLast?_append_of_ne_nil _ hy] at this
  generalize hrow : y ++ z = row at hyz
  cases hyz with
  | list h =>
    rw [← hrow] at h
    exact not_isGroup_append hny hy hz h
  | call hname h =>
    obtain ⟨first, y, rfl⟩ := List.exists_cons_of_ne_nil hy
    obtain ⟨rfl, rfl⟩ := List.cons.inj hrow
    have hny : k.Nests y := hny.of_append_left (x := [first]) (.of_isIdent hname)
    by_cases hnil : y = []
    · rw [hnil] at hlast
      have hcloses : k.closes first = true := hlast
      rw [(Brackets.plain_of_isIdent hname).2] at hcloses
      cases hcloses
    · exact not_isGroup_append hny hnil hz h
  | creation hnew hcreates hparts h hne =>
    obtain ⟨first, y, rfl⟩ := List.exists_cons_of_ne_nil hy
    obtain ⟨rfl, htail⟩ := List.cons.inj hrow
    exact hxy.not_creation_behind hapart hnew hcreates hparts h hnx hx htail

end Stretch

/-! ## Sites -/

/-- The lexemes of the site in the row, from its first through its last one, are a stretch. -/
def Site.IsStretch (s : Site) (k : Brackets) (Creates : Lexeme → List Lexeme → Prop)
    (ls : List Lexeme) : Prop :=
  ∃ before stretch behind, ls = before ++ (stretch ++ behind) ∧ s.first = before.length ∧
    s.last + 1 = before.length + stretch.length ∧ Stretch k Creates stretch

namespace Site.IsStretch

variable {s : Site} {ls : List Lexeme}

theorem shift (h : s.IsStretch k Creates ls) (passed : List Lexeme) :
    (s.shift passed.length).IsStretch k Creates (passed ++ ls) := by
  obtain ⟨before, stretch, behind, rfl, hfirst, hlast, h⟩ := h
  refine ⟨passed ++ before, stretch, behind, by rw [List.append_assoc], ?_, ?_, h⟩
  · rw [first_shift, hfirst, List.length_append, Nat.add_comm]
  · rw [last_shift, List.length_append]
    omega

/-- An initializer list in brackets that are told apart. -/
theorem of_isListOn {pairs : List BracketPair} {element : ElementType} {allocated : ArrayLevel}
    {inner : List ArrayLevel} (hpairs : ∀ b ∈ pairs, b ∈ k.pairs) (hls : k.Completes ls)
    (h : IsListOn pairs element allocated inner ls s) : s.IsStretch k Creates ls := by
  obtain ⟨passed, list, contents, elements, rest, b, hb, hgroup, -, -⟩ := h
  obtain ⟨stretch, rfl, hstretch, hlength⟩ :=
    Brackets.isGroup_of_group (hpairs b hb) hls.of_append hgroup
  refine ⟨passed, stretch, rest, rfl, rfl, ?_, .list hstretch⟩
  rw [hlength]
  rfl

theorem markAttribute (h : s.IsStretch k Creates ls) (sections : List (Nat × Nat)) :
    (s.markAttribute sections).IsStretch k Creates ls := by
  unfold Site.markAttribute
  split <;> exact h

/-- Of two sites, one does not start inside the other and end behind it. -/
theorem last_le (hapart : Apart k Creates) {other : Site} (h : s.IsStretch k Creates ls)
    (hother : other.IsStretch k Creates ls) (hfirst : s.first < other.first)
    (hmeet : other.first ≤ s.last) : other.last ≤ s.last := by
  obtain ⟨before, stretch, behind, hls, hs, hslast, h⟩ := h
  obtain ⟨before', stretch', behind', hls', ht, htlast, h'⟩ := hother
  by_contra hout
  -- the row is `before`, what only the first site has, what both have, and what only the other has
  obtain ⟨x, rfl, hx⟩ : ∃ x, before' = before ++ x ∧
      stretch ++ behind = x ++ (stretch' ++ behind') := by
    rcases List.append_eq_append_iff.1 (hls.symm.trans hls') with ⟨x, hbefore, hx⟩ | ⟨x, rfl, -⟩
    · exact ⟨x, hbefore, hx⟩
    · simp only [List.length_append] at hs
      omega
  obtain ⟨y, rfl, hy⟩ : ∃ y, stretch = x ++ y ∧ stretch' ++ behind' = y ++ behind := by
    rcases List.append_eq_append_iff.1 hx with ⟨y, rfl, -⟩ | ⟨y, hstretch, hy⟩
    · simp only [List.length_append] at ht
      omega
    · exact ⟨y, hstretch, hy⟩
  obtain ⟨z, rfl⟩ : ∃ z, stretch' = y ++ z := by
    rcases List.append_eq_append_iff.1 hy with ⟨z, rfl, -⟩ | ⟨z, hstretch, -⟩
    · simp only [List.length_append] at htlast hslast ht
      omega
    · exact ⟨z, hstretch⟩
  simp only [List.length_append] at ht htlast hslast
  refine h.not_overlap hapart h' ?_ ?_ ?_ <;> rintro rfl <;>
    simp only [List.length_nil] at * <;> omega

end Site.IsStretch

/-- Of two sites among nested brackets, one ends before the other starts, or one holds the other. -/
theorem Site.nests_of_isStretch (hapart : Apart k Creates) {s other : Site} {ls : List Lexeme}
    (h : s.IsStretch k Creates ls) (hother : other.IsStretch k Creates ls) :
    s.last < other.first ∨ other.last < s.first ∨
      (s.first ≤ other.first ∧ other.last ≤ s.last) ∨
      (other.first ≤ s.first ∧ s.last ≤ other.last) := by
  rcases Nat.lt_trichotomy s.first other.first with hlt | heq | hlt
  · have := h.last_le hapart hother hlt
    omega
  · omega
  · have := hother.last_le hapart h hlt
    omega

/-- The call of a method that takes a parameter array is a name with its argument list. -/
theorem ParamArray.isStretch_callSite (p : ParamArray) {l : Lexeme} (hl : l.isIdent = true)
    {ls inside rest : List Lexeme} (hparens : BracketPair.parens ∈ k.pairs) (hls : k.Completes ls)
    (h : BracketPair.parens.group? ls = some (inside, rest)) :
    (p.callSite inside).IsStretch k Creates (l :: ls) := by
  obtain ⟨group, rfl, hgroup, hlength⟩ := Brackets.isGroup_of_group hparens hls h
  refine ⟨[], l :: group, rest, rfl, rfl, ?_, .call hl hgroup⟩
  simp [callSite, hlength]

/-- A site that a recogniser finds at a place of a row is a stretch of it, if it is one in the row
from its own place on. Marking and moving it leave its element type as it is. -/
theorem isStretch_of_mem_collected {recognise : List Lexeme → List Lexeme → List Site}
    {sections : List (Nat × Nat)} {ls : List Lexeme} {s : Site}
    (hstretch : ∀ before here, here <:+ ls → ∀ found ∈ recognise before here,
      found.element = s.element → found.IsStretch k Creates here)
    (h : s ∈ ((atEachPlace (fun before here =>
      (recognise before here).map fun s => s.shift before.length) [] ls).map
        (Site.markAttribute sections)).mergeSort Site.comesBefore) :
    s.IsStretch k Creates ls := by
  obtain ⟨passed, here, rfl, found, hfound, rfl⟩ := exists_found_of_mem_collected h
  have helement : found.element =
      ((found.shift passed.length).markAttribute sections).element := by
    unfold Site.markAttribute
    split <;> rfl
  have hfound := hstretch _ _ (List.suffix_append passed here) found hfound helement
  exact (hfound.shift passed).markAttribute sections

end ZeroAlloc
