import ZeroAlloc.Proofs.Indexed.Tree
set_option autoImplicit false

/-! # Collecting sites by indices

What both languages do with sites: calls are matched with the parameter arrays of the file, and the
sites that are found are marked and put in order by their bytes. The bytes of tokens are in the
order of their indices, so the outcome is that of marking and ordering by indices. -/

namespace ZeroAlloc.Indexed

open Attempt (ofOption)

/-! ## Calls -/

/-- How a language finds calls: which names can be called behind some lexemes, which lexemes show
that a list declares parameters, and which names are the same. -/
structure CallRules where
  canCallAfter : List Lexeme → Bool
  declares : Lexeme → Bool
  sameName : String → String → Bool

namespace Tree

/-- The call of a name at an index, which has a bracket behind it, if it passes nothing for one of
the parameter arrays. -/
def callOf (t : Tree) (rules : CallRules) (arrays : List DeclaredArray) (name : String) (i : Nat) :
    Attempt PlacedSite := do
  let close ← matchingClose .parens t.row (i + 1)
  let inside ← piece t.row (i + 2) close
  if inside.any rules.declares then .absent
  else do
    let count ← countArguments t.row (i + 1) close
    let array ← ofOption <|
      arrays.find? fun a => rules.sameName a.method name && a.fixed == count
    t.callSite array i close count

/-- The call at an index, if it passes nothing for one of the parameter arrays. -/
def callAt (t : Tree) (rules : CallRules) (arrays : List DeclaredArray) (i : Nat) :
    Attempt PlacedSite :=
  match t.row.drop i with
  | [] => .absent
  | l :: row =>
    if !arrays.isEmpty && l.isIdent && startsWithPunct "(" row &&
        rules.canCallAfter (t.row.take i).reverse then
      t.callOf rules arrays l.text i
    else .absent

end Tree

/-- The argument list that the row starts with, as that of a call of the name which passes nothing
for one of the parameter arrays. -/
def callOf? (rules : CallRules) (arrays : List ParamArray) (name : String) (row : List Lexeme) :
    Option Site :=
  (BracketPair.parens.group? row).bind fun p =>
    if p.1.any rules.declares then none
    else
      (arrays.find? fun a => rules.sameName a.method name && a.fixed == argumentCount p.1).map
        (·.callSite p.1)

/-- The call that the row starts with, if it passes nothing for one of the parameter arrays. -/
def callRead? (rules : CallRules) (arrays : List ParamArray) (before row : List Lexeme) :
    Option Site :=
  match row with
  | [] => none
  | l :: row =>
    if l.isIdent && rules.canCallAfter before then callOf? rules arrays l.text row else none

theorem callOf?_eq_none {rules : CallRules} {arrays : List ParamArray} {name : String}
    {row : List Lexeme} (h : arrays = [] ∨ startsWithPunct "(" row = false) :
    callOf? rules arrays name row = none := by
  rcases h with rfl | h
  · rw [callOf?, Option.bind_eq_none_iff]
    intro p _
    split <;> rfl
  · rw [callOf?, group_eq_none h, Option.bind_none]

namespace Tree

variable {t : Tree}

theorem callOf_eq (ht : t.IsTiled) (rules : CallRules) (arrays : List ParamArray) (name : String)
    {i : Nat} (hopen : startsWithPunct "(" (t.row.drop (i + 1)) = true) :
    t.callOf rules (arrays.map .of) name i =
      ofOption ((callOf? rules arrays name (t.row.drop (i + 1))).map fun s =>
        t.place (s.shift i)) := by
  rw [callOf, matchingClose_eq hopen, callOf?]
  cases hgroup : BracketPair.parens.group? (t.row.drop (i + 1)) with
  | none => rfl
  | some p =>
    obtain ⟨inside, rest⟩ := p
    obtain ⟨hclose, hinside, _⟩ := between_of_group hgroup
    simp only [Option.map_some, Option.bind_some, Attempt.ofOption_some, Attempt.done_bind]
    rw [piece_eq_done (by omega), Attempt.done_bind, hinside,
      countArguments_eq_done (by omega) (by omega), hinside, Attempt.done_bind, List.find?_map]
    split
    · rfl
    · have hof : ((fun a => rules.sameName a.method name && a.fixed == argumentCount inside) ∘
          DeclaredArray.of) =
          fun a => rules.sameName a.method name && a.fixed == argumentCount inside := rfl
      rw [hof]
      cases hfind : arrays.find? fun a =>
        rules.sameName a.method name && a.fixed == argumentCount inside with
      | none => rfl
      | some array =>
        have hfixed : array.fixed = argumentCount inside := by
          have := List.find?_some hfind
          simp only [Bool.and_eq_true, beq_iff_eq] at this
          exact this.2
        have hend : i + 1 + inside.length + 1 = i + inside.length + 2 := by omega
        rw [hend] at hclose
        simp only [Option.map_some, Attempt.ofOption_some, Attempt.done_bind]
        rw [hend, ← hfixed, callSite_eq_done ht array hclose]

/-- Finding calls does not fail. -/
theorem callAt_eq (ht : t.IsTiled) (rules : CallRules) (arrays : List ParamArray) (i : Nat) :
    t.callAt rules (arrays.map .of) i =
      ofOption ((callRead? rules arrays (t.row.take i).reverse (t.row.drop i)).map fun s =>
        t.place (s.shift i)) := by
  rw [callAt, callRead?.eq_def]
  cases hrow : t.row.drop i with
  | nil => rfl
  | cons l row =>
    have htail : t.row.drop (i + 1) = row := drop_succ_of_eq_cons hrow
    dsimp only
    by_cases hname : (l.isIdent && rules.canCallAfter (t.row.take i).reverse) = true
    · rw [if_pos hname]
      rw [Bool.and_eq_true] at hname
      by_cases hcall : arrays = [] ∨ startsWithPunct "(" row = false
      · rw [callOf?_eq_none hcall, if_neg]
        · rfl
        · rcases hcall with rfl | hcall
          · simp
          · simp [hcall]
      · rw [not_or, Bool.not_eq_false] at hcall
        rw [if_pos (by simp [hname, hcall]), callOf_eq ht, htail]
        rw [htail]
        exact hcall.2
    · rw [if_neg hname, if_neg]
      · rfl
      · intro hguard
        simp only [Bool.and_eq_true] at hguard hname
        exact hname ⟨hguard.1.1.2, hguard.2⟩

end Tree

/-! ## Marks and order -/

/-- The site, marked if its bytes lie in one of the attribute sections. -/
def PlacedSite.mark (sections : List Text.Span) (s : PlacedSite) : PlacedSite :=
  if sections.any fun a => a.start ≤ s.span.start && s.span.stop ≤ a.stop then
    { s with inAttribute := true }
  else s

/-- The order of sites by their bytes. -/
def PlacedSite.comesBefore (s other : PlacedSite) : Bool :=
  s.span.start < other.span.start ||
    (s.span.start == other.span.start && s.span.stop ≤ other.span.stop)

/-- The sites, marked and in order. -/
def arrange (sections : List Text.Span) (sites : List PlacedSite) : List PlacedSite :=
  (sites.map (PlacedSite.mark sections)).mergeSort PlacedSite.comesBefore

/-- The index range is one of tokens. -/
def Tree.Holds (t : Tree) (p : Nat × Nat) : Prop :=
  p.1 ≤ p.2 ∧ p.2 < t.row.length

namespace Tree

variable {t : Tree}

theorem mark_place (ht : t.IsTiled) {sections : List (Nat × Nat)} {s : Site}
    (hs : t.Holds (s.first, s.last)) (hsections : ∀ p ∈ sections, t.Holds p) :
    (t.place s).mark (sections.map fun p => t.spanOf p.1 p.2) =
      t.place (s.markAttribute sections) := by
  obtain ⟨hle, hlast⟩ := hs
  have hany : (sections.map fun p => t.spanOf p.1 p.2).any (fun a =>
      a.start ≤ (t.place s).span.start && (t.place s).span.stop ≤ a.stop) =
        sections.any fun p => p.1 ≤ s.first && s.last ≤ p.2 := by
    rw [List.any_map, Bool.eq_iff_iff, List.any_eq_true, List.any_eq_true]
    refine exists_congr fun p => and_congr_right fun hp => ?_
    obtain ⟨hp₁, hp₂⟩ := hsections p hp
    have hstart := start_le_start_iff ht (Nat.lt_of_le_of_lt hp₁ hp₂) (Nat.lt_of_le_of_lt hle hlast)
    have hstop := stop_le_stop_iff ht hlast hp₂
    simp only [Function.comp_apply, Bool.and_eq_true, decide_eq_true_eq]
    exact and_congr hstart hstop
  rw [PlacedSite.mark, hany, Site.markAttribute]
  change (if (sections.any fun p => p.1 ≤ s.first && s.last ≤ p.2) = true then _ else _) = t.place
    (if (sections.any fun p => p.1 ≤ s.first && s.last ≤ p.2) = true then _ else _)
  split <;> rfl

theorem comesBefore_place (ht : t.IsTiled) {s other : Site} (hs : t.Holds (s.first, s.last))
    (hother : t.Holds (other.first, other.last)) :
    (t.place s).comesBefore (t.place other) = s.comesBefore other := by
  have hlast : s.last < t.row.length := hs.2
  have hlast' : other.last < t.row.length := hother.2
  have hfirst : s.first < t.row.length := Nat.lt_of_le_of_lt hs.1 hlast
  have hfirst' : other.first < t.row.length := Nat.lt_of_le_of_lt hother.1 hlast'
  have hstart := start_le_start_iff ht hfirst hfirst'
  have hstart' := start_le_start_iff ht hfirst' hfirst
  have hstop := stop_le_stop_iff ht hlast hlast'
  rw [Bool.eq_iff_iff]
  simp only [PlacedSite.comesBefore, Site.comesBefore, Bool.or_eq_true, Bool.and_eq_true,
    decide_eq_true_eq, beq_iff_eq]
  change t.start s.first < t.start other.first ∨
    t.start s.first = t.start other.first ∧ t.stop s.last ≤ t.stop other.last ↔ _
  rw [hstop]
  omega

/-- Marking and ordering by bytes is marking and ordering by indices. -/
theorem arrange_place (ht : t.IsTiled) {sections : List (Nat × Nat)} {sites : List Site}
    (hsites : ∀ s ∈ (sites.map (Site.markAttribute sections)).mergeSort Site.comesBefore,
      s.LiesIn t.row)
    (hsections : ∀ p ∈ sections, t.Holds p) :
    arrange (sections.map fun p => t.spanOf p.1 p.2) (sites.map t.place) =
      ((sites.map (Site.markAttribute sections)).mergeSort Site.comesBefore).map t.place := by
  have hmarked : ∀ s ∈ sites.map (Site.markAttribute sections), t.Holds (s.first, s.last) :=
    fun s hs =>
      have hlies := hsites s (List.mem_mergeSort.2 hs)
      ⟨hlies.first_le_last, hlies.last_lt_length⟩
  have hfound : ∀ s ∈ sites, t.Holds (s.first, s.last) := by
    intro s hs
    have hmark := hmarked _ (List.mem_map_of_mem hs)
    unfold Site.markAttribute at hmark
    split at hmark <;> exact hmark
  rw [arrange, List.map_mergeSort fun a ha b hb =>
    (comesBefore_place ht (hmarked a ha) (hmarked b hb)).symm, List.map_map, List.map_map]
  congr 1
  exact List.map_congr_left fun s hs => mark_place ht (hfound s hs) hsections

end Tree

end ZeroAlloc.Indexed
