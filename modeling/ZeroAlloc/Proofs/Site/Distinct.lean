import Mathlib.Data.List.Sort
import ZeroAlloc.Proofs.Site.Extent
set_option autoImplicit false

/-! # Sites that start apart

Every place of a row is tried, so one initializer list might be reached from several places. It is
not if the list tells where its declaration starts: then the sites that a source writes down start
at lexemes of their own (`pairwise_startsApart_collected`). -/

namespace ZeroAlloc

/-- The sites start at different lexemes, unless the compiler makes one of them. -/
def Site.StartsApart (s other : Site) : Prop :=
  s.origin.isCompilerGenerated = false → other.origin.isCompilerGenerated = false →
    s.first ≠ other.first

namespace Site.StartsApart

variable {s other : Site}

theorem symm (h : s.StartsApart other) : other.StartsApart s :=
  fun hs hother heq => h hother hs heq.symm

theorem shift (h : s.StartsApart other) (n : Nat) : (s.shift n).StartsApart (other.shift n) :=
  fun hs hother heq => h hs hother (Nat.add_right_cancel heq)

end Site.StartsApart

/-- The site, found at a place, is told by the lexemes in front of it: a creation expression starts
with a word at the place itself, and an initializer list, which starts with no word, belongs to a
declaration that starts there. -/
def Site.IsFoundFrom (Starts : List Lexeme → List Lexeme → Prop) (before here : List Lexeme)
    (s : Site) : Prop :=
  ∃ taken value, here = taken ++ value ∧ s.first = taken.length ∧
    (taken = [] ∧ startsWithIdent value = true ∨
      startsWithIdent value = false ∧ Starts (taken.reverse ++ before) before)

/-- Sites that a source writes down are told by where they start, so some of them are known if it
is known which they are. -/
theorem filter_eq_of_mem_iff {sites listed : List Site} {p : Site → Bool}
    (hsorted : sites.Pairwise fun s other => s.comesBefore other = true)
    (hapart : sites.Pairwise Site.StartsApart) (hlisted : listed.Pairwise (·.first < ·.first))
    (hwritten : ∀ s ∈ listed, s.origin.isCompilerGenerated = false)
    (hmem : ∀ s, s ∈ sites ∧ p s = true ↔ s ∈ listed) : sites.filter p = listed := by
  have hfilter (s : Site) : s ∈ sites.filter p ↔ s ∈ listed := by
    rw [List.mem_filter, hmem]
  have hstrict : (sites.filter p).Pairwise (·.first < ·.first) := by
    refine ((hsorted.and hapart).filter p).imp_of_mem fun {s other} hs hother h => ?_
    have hne := h.2 (hwritten s ((hfilter s).1 hs)) (hwritten other ((hfilter other).1 hother))
    have hle := h.1
    simp only [Site.comesBefore, Bool.or_eq_true, Bool.and_eq_true, decide_eq_true_eq,
      beq_iff_eq] at hle
    omega
  have : Std.Antisymm fun s other : Site => s.first < other.first :=
    ⟨fun _ _ h h' => absurd h' (Nat.lt_asymm h)⟩
  have : Std.Irrefl fun s other : Site => s.first < other.first := ⟨fun _ => Nat.lt_irrefl _⟩
  exact hstrict.eq_of_mem_iff hlisted hfilter

/-! ## One place -/

section Place

variable {Starts : List Lexeme → List Lexeme → Prop} {before here : List Lexeme}
  {creation call : Option Site} {declared : List Site}
  (hcreation : ∀ s ∈ creation, s.first = 0 ∧ startsWithIdent here = true)
  (hcall : ∀ s ∈ call, s.origin.isCompilerGenerated = true)
include hcreation hcall

theorem Site.isFoundFrom_of_mem_recognised
    (hdeclared : ∀ s ∈ declared, s.IsFoundFrom Starts before here) {s : Site}
    (h : s ∈ creation.toList ++ declared ++ call.toList)
    (hwritten : s.origin.isCompilerGenerated = false) : s.IsFoundFrom Starts before here := by
  simp only [List.mem_append, Option.mem_toList] at h
  rcases h with (h | h) | h
  · obtain ⟨hfirst, hword⟩ := hcreation s h
    exact ⟨[], here, rfl, hfirst, .inl ⟨rfl, hword⟩⟩
  · exact hdeclared s h
  · rw [hcall s h] at hwritten
    cases hwritten

/-- At one place, initializer lists stand behind each other, and behind a creation expression. -/
theorem pairwise_startsApart_recognised (hdeclared : ∀ s ∈ declared, 0 < s.first)
    (hlists : declared.Pairwise (·.first < ·.first)) :
    (creation.toList ++ declared ++ call.toList).Pairwise Site.StartsApart := by
  have hsingle (found : Option Site) : found.toList.Pairwise Site.StartsApart := by
    cases found with
    | none => exact .nil
    | some s => exact List.pairwise_singleton ..
  rw [List.pairwise_append, List.pairwise_append]
  refine ⟨⟨hsingle _, hlists.imp fun h _ _ => Nat.ne_of_lt h, fun s hs other hother _ _ => ?_⟩,
    hsingle _, fun s _ other hother _ hwritten => ?_⟩
  · rw [(hcreation s (Option.mem_toList.1 hs)).1]
    exact Nat.ne_of_lt (hdeclared other hother)
  · rw [hcall other (Option.mem_toList.1 hother)] at hwritten
    cases hwritten

end Place

/-! ## All places -/

section Collected

variable {Starts : List Lexeme → List Lexeme → Prop}
  (hunique : ∀ place start other, Starts place start → Starts place other → start = other)
include hunique

/-- Sites that are found from different places start apart. -/
theorem Site.IsFoundFrom.first_ne {before here passed later : List Lexeme} {l : Lexeme}
    {s other : Site} (hs : s.IsFoundFrom Starts before here)
    (hother : other.IsFoundFrom Starts (passed.reverse ++ l :: before) later)
    (hhere : here = l :: (passed ++ later)) :
    s.first + before.length ≠ other.first + (passed.reverse ++ l :: before).length := by
  intro hfirst
  obtain ⟨taken, value, hrow, hlength, hs⟩ := hs
  obtain ⟨taken', value', rfl, hlength', hother⟩ := hother
  -- one lexeme of the row is first in both, so both see the same lexemes around it
  have hsplit : taken ++ value = (l :: (passed ++ taken')) ++ value' := by
    rw [← hrow, hhere]
    simp
  have htaken : taken.length = (l :: (passed ++ taken')).length := by
    simp only [List.length_cons, List.length_append, List.length_reverse] at hfirst ⊢
    omega
  obtain ⟨rfl, rfl⟩ := List.append_inj hsplit htaken
  rcases hs with ⟨hnil, -⟩ | ⟨hvalue, hstart⟩
  · cases hnil
  · rcases hother with ⟨rfl, hvalue'⟩ | ⟨-, hstart'⟩
    · rw [hvalue] at hvalue'
      cases hvalue'
    · have hplace : (l :: (passed ++ taken')).reverse ++ before =
          taken'.reverse ++ (passed.reverse ++ l :: before) := by simp
      rw [hplace] at hstart
      have hbefore := congrArg List.length (hunique _ _ _ hstart hstart')
      simp only [List.length_cons, List.length_append, List.length_reverse] at hbefore
      omega

/-- Initializer lists that start at one lexeme are found from one place. -/
theorem Site.IsFoundFrom.before_eq {before here before' here' : List Lexeme} {s other : Site}
    (hs : s.IsFoundFrom Starts before here) (hother : other.IsFoundFrom Starts before' here')
    (hrow : before.reverse ++ here = before'.reverse ++ here')
    (hfirst : s.first + before.length = other.first + before'.length) (hlist : 0 < s.first)
    (hlist' : 0 < other.first) : before = before' := by
  obtain ⟨taken, value, rfl, hlength, ⟨rfl, -⟩ | ⟨-, hstart⟩⟩ := hs
  · rw [hlength] at hlist
    cases hlist
  obtain ⟨taken', value', rfl, hlength', ⟨rfl, -⟩ | ⟨-, hstart'⟩⟩ := hother
  · rw [hlength'] at hlist'
    cases hlist'
  -- both see the same lexemes in front of the list
  rw [← List.append_assoc, ← List.append_assoc] at hrow
  have hplace : taken.reverse ++ before = taken'.reverse ++ before' := by
    have hsame := congrArg List.reverse (List.append_inj hrow (by
      simp only [List.length_append, List.length_reverse]
      omega)).1
    simpa using hsame
  rw [hplace] at hstart
  exact hunique _ _ _ hstart hstart'

variable {recognise : List Lexeme → List Lexeme → List Site}
  (hfound : ∀ before here, ∀ s ∈ recognise before here, s.origin.isCompilerGenerated = false →
    s.IsFoundFrom Starts before here)
  (hplace : ∀ before here, (recognise before here).Pairwise Site.StartsApart)
include hfound hplace

theorem pairwise_startsApart_atEachPlace (before ls : List Lexeme) :
    (atEachPlace (fun before here =>
      (recognise before here).map fun s => s.shift before.length) before ls).Pairwise
        Site.StartsApart := by
  induction ls generalizing before with
  | nil => exact .nil
  | cons l ls ih =>
    rw [atEachPlace, List.pairwise_append]
    refine ⟨?_, ih _, fun s hs other hlater hwritten hwritten' => ?_⟩
    · rw [List.pairwise_map]
      exact (hplace before (l :: ls)).imp fun h => h.shift _
    · obtain ⟨found, hin, rfl⟩ := List.mem_map.1 hs
      obtain ⟨passed, here, rfl, hmoved⟩ := exists_place_of_mem_atEachPlace hlater
      obtain ⟨found', hin', rfl⟩ := List.mem_map.1 hmoved
      exact (hfound _ _ found hin hwritten).first_ne hunique (hfound _ _ found' hin' hwritten') rfl

/-- Moved up to their places, marked and sorted, the sites that a source writes down start apart. -/
theorem pairwise_startsApart_collected (sections : List (Nat × Nat)) (ls : List Lexeme) :
    (((atEachPlace (fun before here =>
      (recognise before here).map fun s => s.shift before.length) [] ls).map
        (Site.markAttribute sections)).mergeSort Site.comesBefore).Pairwise Site.StartsApart := by
  refine (List.mergeSort_perm _ _).symm.pairwise ?_ fun h => h.symm
  rw [List.pairwise_map]
  refine (pairwise_startsApart_atEachPlace hunique hfound hplace [] ls).imp fun {s other} h => ?_
  simpa [Site.StartsApart] using h

end Collected

end ZeroAlloc
