import ZeroAlloc.CSharp.Declaration
import ZeroAlloc.VisualBasic.Declaration
set_option autoImplicit false

/-! # Readers of declarations

One round of each reader of declarations, without the bound on what follows. -/

namespace ZeroAlloc

namespace CSharp

/-- One round of reading declarators. -/
theorem constantDeclarators_cons (name mark : Lexeme) (value : List Lexeme) :
    constantDeclarators (name :: mark :: value) =
      if name.isIdent && mark.isPunct "=" then
        let split := definition endsDefinition 0 value
        (name.text, withoutNewlines split.1) ::
          if startsWithPunct "," split.2 then constantDeclarators split.2.tail else []
      else [] := by
  rw [constantDeclarators]
  split
  · dsimp only
    split
    · rename_i comma rest hrest
      rw [hrest]
      rfl
    · rename_i hrest
      rw [hrest]
      rfl
  · rfl

end CSharp

namespace VisualBasic

/-- One round of reading clauses. -/
theorem importClauses_eq (index : Nat) (ls : List Lexeme) :
    importClauses index ls =
      match importClause? index ls with
      | none => []
      | some p =>
        p.1.toList ++
          if startsWithPunct "," p.2 then
            importClauses (index + (ls.length - p.2.tail.length)) p.2.tail
          else [] := by
  rw [importClauses]
  split
  · rename_i hclause
    rw [hclause]
  · rename_i found rest hclause
    simp only [hclause]
    cases rest <;> rfl

/-- One round of reading declarators. -/
theorem constantDeclarators_cons (name : Lexeme) (type : List Lexeme) :
    constantDeclarators (name :: type) =
      let marked := type.dropWhile (!endsDeclarator ·)
      if name.isIdent && startsWithPunct "=" marked then
        let split := definition endsDefinition 0 marked.tail
        (Text.lowerAscii name.text, withoutNewlines split.1) ::
          if startsWithPunct "," split.2 then constantDeclarators split.2.tail else []
      else [] := by
  rw [constantDeclarators]
  cases name.isIdent with
  | false => rfl
  | true =>
    rw [if_pos rfl]
    simp only [Bool.true_and]
    split
    · rename_i hmark
      rw [hmark]
      rfl
    · rename_i mark value hmark
      simp only [hmark, startsWithPunct_cons, List.tail_cons]
      split
      · split
        · rename_i comma rest hrest
          rw [hrest]
          rfl
        · rename_i hrest
          rw [hrest]
          rfl
      · rfl

end VisualBasic

end ZeroAlloc
