import ZeroAlloc.Proofs.Site.Extent
import ZeroAlloc.Proofs.VisualBasic.Nesting
set_option autoImplicit false

/-! # Attribute blocks in Visual Basic

A site is marked just if it lies in an attribute block (`inAttribute_of_mem_sites`). A block on one
line is found at the start of a declaration (`mem_attributeBlocks`), but not directly behind another
block. -/

namespace ZeroAlloc.VisualBasic

/-! ## Marks -/

theorem inAttribute_of_creation {ls : List Lexeme} {s : Site} (h : creation? ls = some s) :
    s.inAttribute = false := by
  cases isCreation_of_creation h with
  | intro => rfl

theorem inAttribute_of_declarationSite {before ls : List Lexeme} {s : Site}
    (h : declarationSite? before ls = some s) : s.inAttribute = false := by
  obtain ⟨_, _, _, _, _, -, -, -, -, hlist⟩ := exists_isListOn_of_declarationSite h
  cases hlist
  rfl

theorem inAttribute_of_paramArrayCall {arrays : List ParamArray} {before ls : List Lexeme}
    {s : Site} (h : paramArrayCall? arrays before ls = some s) : s.inAttribute = false := by
  obtain ⟨array, -, -, -, -, -, -, -, -, rfl⟩ := exists_callSite_of_paramArrayCall h
  rfl

/-- A site is marked just if it lies in an attribute block. -/
theorem inAttribute_of_mem_sites {ls : List Lexeme} {s : Site} (h : s ∈ sites ls) :
    s.inAttribute = s.liesWithin (attributeBlocks [] 0 ls) := by
  refine Site.inAttribute_of_mem_collected (fun before here s hs => ?_) h
  simp only [List.mem_append, Option.mem_toList] at hs
  rcases hs with (hs | hs) | hs
  · exact inAttribute_of_creation hs
  · exact inAttribute_of_declarationSite hs
  · exact inAttribute_of_paramArrayCall hs

/-! ## Blocks in a row -/

/-- Whether the row is an attribute block with its brackets. -/
def isSection (ls : List Lexeme) : Bool :=
  startsWithPunct "<" ls && startsWithIdent ls.tail && ls.getLast?.any (·.isPunct ">") &&
    decide (brackets.OnlyInside (·.isPunct ">") ls.tail.dropLast)

/-- Whether a declaration or a parameter can start at a place and go on behind its attribute block
with the row `behind`. -/
def startsDeclaration (before behind : List Lexeme) : Bool :=
  startsStatementAfter before ||
    ((startsWithPunct "(" before || startsWithPunct "," before) && startsWithIdent behind)

theorem exists_of_isSection {ls : List Lexeme} (h : isSection ls = true) :
    ∃ opening inside close, ls = opening :: (inside ++ [close]) ∧ opening.isPunct "<" = true ∧
      close.isPunct ">" = true ∧ startsWithIdent inside = true ∧
      brackets.OnlyInside (·.isPunct ">") inside := by
  simp only [isSection, Bool.and_eq_true, decide_eq_true_eq] at h
  obtain ⟨⟨⟨hopen, hword⟩, hclose⟩, honly⟩ := h
  cases ls with
  | nil => cases hopen
  | cons opening ls =>
    rcases List.eq_nil_or_concat ls with rfl | ⟨inside, close, rfl⟩
    · cases hword
    · rw [List.concat_eq_append] at hword hclose honly ⊢
      have hclose : close.isPunct ">" = true := by simpa [List.getLast?_cons] using hclose
      refine ⟨opening, inside, close, rfl, hopen, hclose, ?_, by simpa using honly⟩
      cases inside with
      | nil =>
        have hident : startsWithIdent [close] = false := startsWithIdent_eq_false (p := ">") hclose
        exact absurd hword (by simp [hident])
      | cons word inside => exact hword

/-- One round of looking for the end of a block. -/
theorem attributeEnd?_cons {l : Lexeme} (hline : l.isNewline = false) (depth : Nat)
    (ls : List Lexeme) :
    attributeEnd? depth (l :: ls) =
      if l.isPunct ">" && depth == 0 then some (0, ls)
      else
        (attributeEnd? (if brackets.opens l then depth + 1
          else if brackets.closes l then depth - 1 else depth) ls).map
            fun (width, rest) => (width + 1, rest) := by
  have hopens : brackets.opens l = (l.isPunct "(" || l.isPunct "\x7b") := by
    simp [Brackets.opens, brackets, BracketPair.parens, BracketPair.braces]
  have hcloses : brackets.closes l = (l.isPunct ")" || l.isPunct "\x7d") := by
    simp [Brackets.closes, brackets, BracketPair.parens, BracketPair.braces]
  have hplain (h : l.isPunct ">" = true) : brackets.opens l = false ∧ brackets.closes l = false :=
    Brackets.plain_of_isPunct h (by decide)
  rw [attributeEnd?, hline, ← hopens, ← hcloses]
  cases hangle : l.isPunct ">" with
  | false =>
    simp only [Bool.false_and, Bool.false_eq_true, if_false]
    split
    · rfl
    · split <;> rfl
  | true =>
    rw [(hplain hangle).1, (hplain hangle).2]
    rfl

/-- The bracket that closes a block is the first one outside of all others. -/
theorem attributeEnd?_append {due due' : List String} {inside rest : List Lexeme}
    (h : brackets.due? due inside = some due') (hline : ∀ l ∈ inside, l.isNewline = false)
    (hclose : ∀ before l behind, inside = before ++ l :: behind →
      brackets.due? due before = some [] → l.isPunct ">" = false) :
    attributeEnd? due.length (inside ++ rest) =
      (attributeEnd? due'.length rest).map fun (width, rest) => (width + inside.length, rest) := by
  induction inside generalizing due with
  | nil =>
    cases h
    simp
  | cons l inside ih =>
    rw [Brackets.due?_cons] at h
    obtain ⟨next, hstep, hrest⟩ := Option.bind_eq_some_iff.1 h
    have hmore := ih hrest (fun m hm => hline m (List.mem_cons_of_mem l hm))
      fun before m behind hrow hbefore => hclose (l :: before) m behind (congrArg _ hrow) (by
        rw [Brackets.due?_cons, hstep, Option.bind_some, hbefore])
    have hangle : (l.isPunct ">" && due.length == 0) = false := by
      cases due with
      | nil =>
        rw [hclose [] l inside rfl rfl]
        rfl
      | cons => simp
    rw [List.cons_append, attributeEnd?_cons (hline l List.mem_cons_self), hangle,
      ← Brackets.length_of_step hstep, hmore]
    simp only [Bool.false_eq_true, if_false, Option.map_map, Function.comp_def, List.length_cons,
      Nat.add_assoc]

/-- A block on one line is seen where a declaration can start. -/
theorem attributeBlock?_of_isSection {attributes before rest : List Lexeme}
    (h : isSection attributes = true) (hline : ∀ l ∈ attributes, l.isNewline = false)
    (hstart : startsDeclaration before rest = true) :
    ∃ width, attributes.length = width + 2 ∧
      attributeBlock? before (attributes ++ rest) = some width := by
  obtain ⟨opening, inside, close, rfl, hopen, hclose, hword, honly⟩ := exists_of_isSection h
  refine ⟨inside.length, by simp, ?_⟩
  have hend : attributeEnd? 0 (inside ++ close :: rest) = some (inside.length, rest) := by
    have hpass : attributeEnd? 0 (inside ++ close :: rest) = _ :=
      attributeEnd?_append honly.nests (fun l hl => hline l (by simp [hl])) honly.outside
    rw [hpass, List.length_nil, attributeEnd?_cons (hline close (by simp)), hclose]
    simp
  have hfirst : startsWithIdent (inside ++ close :: rest) = true := by
    cases inside with
    | nil => cases hword
    | cons word inside => exact hword
  rw [attributeBlock?, List.cons_append, List.append_assoc, List.singleton_append, List.tail_cons,
    startsWithPunct_cons, hopen, hfirst, hend]
  exact if_pos hstart

theorem exists_attributeBlocks_append (before : List Lexeme) (index : Nat) (ls more : List Lexeme) :
    ∃ found, attributeBlocks before index (ls ++ more) =
      found ++ attributeBlocks (ls.reverse ++ before) (index + ls.length) more := by
  induction ls generalizing before index with
  | nil => exact ⟨[], rfl⟩
  | cons l ls ih =>
    obtain ⟨found, hmore⟩ := ih (l :: before) (index + 1)
    have hplace : (l :: ls).reverse ++ before = ls.reverse ++ l :: before := by simp
    rw [hplace, List.length_cons, Nat.add_comm ls.length, ← Nat.add_assoc, List.cons_append,
      attributeBlocks, hmore, ← List.append_assoc]
    exact ⟨_, rfl⟩

/-- A block at the start of a declaration is found if it is on one line. -/
theorem mem_attributeBlocks {attributes before rest : List Lexeme}
    (h : isSection attributes = true) (hline : ∀ l ∈ attributes, l.isNewline = false)
    (hstart : startsDeclaration before.reverse rest = true) :
    ∃ stop, stop + 1 = before.length + attributes.length ∧
      (before.length, stop) ∈ attributeBlocks [] 0 (before ++ (attributes ++ rest)) := by
  obtain ⟨found, hblocks⟩ := exists_attributeBlocks_append [] 0 before (attributes ++ rest)
  obtain ⟨width, hlength, hseen⟩ := attributeBlock?_of_isSection h hline hstart
  obtain ⟨opening, inside, close, rfl, -⟩ := exists_of_isSection h
  refine ⟨before.length + width + 1, by omega, ?_⟩
  rw [List.cons_append] at hseen hblocks ⊢
  rw [hblocks, List.append_nil, Nat.zero_add, attributeBlocks, hseen]
  exact List.mem_append_right found List.mem_cons_self

end ZeroAlloc.VisualBasic
