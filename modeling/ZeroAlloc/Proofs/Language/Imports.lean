import ZeroAlloc.Language
import ZeroAlloc.Proofs.Site.Extent
import ZeroAlloc.Proofs.VisualBasic.Extent
set_option autoImplicit false

/-! # Imports lie in their rows

The indices of an import are those of lexemes of its file (`Language.liesBefore_of_mem_imports`). -/

namespace ZeroAlloc

/-- The import lies in a row that ends at an index. -/
structure Import.LiesBefore (i : Import) (stop : Nat) : Prop where
  first_le_last : i.first ≤ i.last
  last_lt : i.last < stop

theorem length_pos_of_startsWithPunct {p : String} {ls : List Lexeme}
    (h : startsWithPunct p ls = true) : 0 < ls.length := by
  cases ls with
  | nil => cases h
  | cons l ls => exact Nat.zero_lt_succ _

namespace CSharp

theorem liesBefore_of_import {index : Nat} {ls : List Lexeme} {i : Import}
    (h : import? index ls = some i) : i.LiesBefore (index + 1 + ls.length) := by
  unfold import? at h
  dsimp only at h
  split at h
  · cases h
  · rename_i hguard
    cases h
    simp only [Bool.or_eq_true, Bool.not_eq_true', not_or, Bool.not_eq_false] at hguard
    have hend := length_pos_of_startsWithPunct hguard.2
    have hclause := length_splitAlias_le ls
    have hrest := (List.dropWhile_sublist (l := (splitAlias ls).2) isImportPart).length_le
    constructor
    · exact Nat.le_add_right_of_le (Nat.le_succ index)
    · dsimp only
      omega

theorem liesBefore_of_mem_importsFrom {before ls : List Lexeme} {index depth : Nat} {i : Import}
    (h : i ∈ importsFrom before index depth ls) : i.LiesBefore (index + ls.length) := by
  induction ls generalizing before index depth with
  | nil => cases h
  | cons l ls ih =>
    have hmore {depth : Nat} (h : i ∈ importsFrom (l :: before) (index + 1) depth ls) :
        i.LiesBefore (index + (l :: ls).length) := by
      have hlies := ih h
      rwa [Nat.add_assoc, Nat.add_comm 1] at hlies
    unfold importsFrom at h
    dsimp only at h
    split at h
    · exact hmore h
    · split at h
      · exact hmore h
      · split at h
        · rcases List.mem_append.1 h with h | h
          · have hlies := liesBefore_of_import (Option.mem_toList.1 h)
            rwa [Nat.add_assoc, Nat.add_comm 1] at hlies
          · exact hmore h
        · exact hmore h

end CSharp

namespace VisualBasic

theorem liesBefore_of_importClause {index : Nat} {ls rest : List Lexeme} {i : Import}
    (h : importClause? index ls = some (some i, rest)) : i.LiesBefore (index + ls.length) := by
  unfold importClause? at h
  split at h
  · cases h
  · obtain ⟨⟨arguments, after⟩, harguments, he⟩ := Option.map_eq_some_iff.1 h
    dsimp only at he
    split at he
    · cases he
    · rename_i hname
      simp only [Prod.mk.injEq, Option.some.injEq] at he
      obtain ⟨rfl, rfl⟩ := he
      have happend := congrArg List.length (eq_append_of_typeArguments harguments)
      have hclause := length_splitAlias_le ls
      have hsplit := congrArg List.length
        (List.takeWhile_append_dropWhile (p := isNamePart) (l := (splitAlias ls).2))
      simp only [List.isEmpty_iff, ← List.length_eq_zero_iff, List.length_append] at hname
      simp only [List.length_append] at happend hsplit
      constructor <;> dsimp only <;> omega

theorem liesBefore_of_mem_importClauses {index : Nat} {ls : List Lexeme} {i : Import}
    (h : i ∈ importClauses index ls) : i.LiesBefore (index + ls.length) := by
  fun_induction importClauses index ls with
  | case1 => cases h
  | case2 index ls found rest hclause ih =>
    have hlength := length_le_of_importClause hclause
    rcases List.mem_append.1 h with h | h
    · rw [Option.mem_toList] at h
      exact liesBefore_of_importClause (h ▸ hclause)
    · split at h
      · rename_i comma more hclause _
        split at h
        · obtain ⟨hle, hlt⟩ := ih comma more hclause h
          rw [List.length_cons] at hlength
          exact ⟨hle, by omega⟩
        · cases h
      · cases h

theorem liesBefore_of_mem_imports {ls : List Lexeme} {i : Import} (h : i ∈ imports ls) :
    i.LiesBefore ls.length := by
  obtain ⟨passed, here, rfl, hplace⟩ := exists_place_of_mem_atEachPlace h
  split at hplace
  · rename_i hword
    obtain ⟨hle, hlt⟩ := liesBefore_of_mem_importClauses hplace
    cases here with
    | nil => simp [startsWithKeyword] at hword
    | cons l here =>
      refine ⟨hle, ?_⟩
      simp only [List.append_nil, List.length_reverse, List.tail_cons] at hlt
      rw [List.length_append, List.length_cons]
      omega
  · cases hplace

end VisualBasic

/-- The indices of an import are those of lexemes of its file. -/
theorem Language.liesBefore_of_mem_imports {language : Language} {ls : List Lexeme} {i : Import}
    (h : i ∈ language.imports ls) : i.LiesBefore ls.length := by
  cases language with
  | csharp => simpa using CSharp.liesBefore_of_mem_importsFrom h
  | visualBasic => exact VisualBasic.liesBefore_of_mem_imports h

end ZeroAlloc
