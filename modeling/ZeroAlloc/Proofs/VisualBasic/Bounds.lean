import Mathlib.Algebra.Group.Int.Defs
import Mathlib.Data.List.Forall2
import ZeroAlloc.Proofs.Language.Inlining
import ZeroAlloc.Proofs.Language.Literal
set_option autoImplicit false

/-! # Array bounds of Visual Basic

A dimension is one longer than its greatest index, and its least index can only be zero
(`VisualBasic.length?_bounds`). Plain arithmetic has the same value in both languages, since they
read decimal digits alike and otherwise differ only in names and casts (`fold_of_isArithmetic`). -/

namespace ZeroAlloc

/-! ## Plain decimal literals -/

/-- A decimal literal of digits alone. -/
def Lexeme.IsPlainNumber (l : Lexeme) : Prop :=
  l.kind = .number ∧ l.text ≠ "" ∧ ∀ c ∈ l.text.toList, c.isDigit = true

/-- A plain number, or one of the marks of arithmetic. -/
def Lexeme.IsArithmetic (l : Lexeme) : Prop :=
  l.IsPlainNumber ∨ ∃ p ∈ ["+", "-", "*", "(", ")"], l.isPunct p = true

section Digits

variable {cs : List Char} (hdigits : ∀ c ∈ cs, c.isDigit = true)

include hdigits

theorem map_toLower_of_forall_isDigit : cs.map Char.toLower = cs := by
  refine (List.map_congr_left fun c hc => ?_).trans (List.map_id _)
  refine Text.toLower_eq_self (Bool.eq_false_iff.2 fun halpha => ?_)
  have hrange := (Integer.isDigit_iff c).1 (hdigits c hc)
  have hletter := (Text.isAlpha_iff c).1 halpha
  omega

theorem notMem_of_forall_isDigit {c : Char} (hc : c.isDigit = false) : c ∉ cs :=
  fun hmem => Integer.ne_of_isDigit (hdigits c hmem) hc rfl

/-- Digits have no suffix. -/
theorem dropTrailing_of_forall_isDigit (hne : cs ≠ []) {p : Char → Bool}
    (hp : ∀ c, p c = true → c.isDigit = false) : dropTrailing p cs = cs := by
  have h : dropTrailing p ([] ++ cs ++ []) = [] ++ cs := by
    refine dropTrailing_append hne (fun c hc => Bool.eq_false_iff.2 fun hpc => ?_) (by simp) []
    exact notMem_of_forall_isDigit hdigits (hp c hpc) hc
  simpa using h

end Digits

theorem CSharp.literal?_of_forall_isDigit {text : String} (hne : text.toList ≠ [])
    (hdigits : ∀ c ∈ text.toList, c.isDigit = true) :
    literal? text = Integer.ofDigits? 10 text.toList := by
  refine literal?_of_decimal ?_ (notMem_of_forall_isDigit hdigits rfl)
    (notMem_of_forall_isDigit hdigits rfl)
  rw [map_toLower_of_forall_isDigit hdigits]
  refine dropTrailing_of_forall_isDigit hdigits hne fun c hc => ?_
  simp only [Bool.or_eq_true, beq_iff_eq] at hc
  rcases hc with rfl | rfl <;> rfl

theorem VisualBasic.literal?_of_forall_isDigit {text : String} (hne : text.toList ≠ [])
    (hdigits : ∀ c ∈ text.toList, c.isDigit = true) :
    literal? text = Integer.ofDigits? 10 text.toList := by
  have hhead (more : List Char) : text.toList ≠ '&' :: more := fun heq =>
    notMem_of_forall_isDigit hdigits (rfl : '&'.isDigit = false) (by simp [heq])
  have hfractional {c : Char} (hc : isFractionalSuffix c = true) : c.isDigit = false := by
    simp only [isFractionalSuffix, Bool.or_eq_true, beq_iff_eq] at hc
    rcases hc with ((((rfl | rfl) | rfl) | rfl) | rfl) | rfl <;> rfl
  have hintegral (c : Char) (hc : isIntegralSuffix c = true) : c.isDigit = false := by
    have hall : ∀ c ∈ Language.visualBasic.integralSuffixes, c.isDigit = false := by
      simp [Language.integralSuffixes]
    exact hall c (mem_integralSuffixes.2 hc)
  rw [literal?_of_decimal (map_toLower_of_forall_isDigit hdigits) hhead fun c hc =>
    Bool.eq_false_iff.2 fun hsuffix => notMem_of_forall_isDigit hdigits (hfractional hsuffix) hc,
    dropTrailing_of_forall_isDigit hdigits hne hintegral]

/-- Digits alone are read in the same way in both languages. -/
theorem Language.literal?_of_forall_isDigit (language : Language) {text : String} (hne : text ≠ "")
    (hdigits : ∀ c ∈ text.toList, c.isDigit = true) :
    language.dialect.literal? text = Integer.ofDigits? 10 text.toList := by
  have hlist : text.toList ≠ [] := mt String.toList_eq_nil_iff.1 hne
  cases language with
  | csharp => exact CSharp.literal?_of_forall_isDigit hlist hdigits
  | visualBasic => exact VisualBasic.literal?_of_forall_isDigit hlist hdigits

namespace VisualBasic

/-- Without a lower bound a bound is its greatest index. -/
theorem upperBound?_of_forall {constants : Constants} {bound : List Lexeme}
    (hbound : ∀ l ∈ bound, isTo l = false) :
    upperBound? constants bound = fold dialect constants bound := by
  have hall : ∀ l ∈ bound, (!isTo l) = true := fun l hl => by rw [hbound l hl]; rfl
  rw [upperBound?, List.dropWhile_eq_nil_iff.2 hall]

/-- The length is one more than the greatest index, as far as it is represented. -/
theorem length?_eq_some_iff {constants : Constants} {bound : List Lexeme} {k : Int} :
    length? constants bound = some k ↔ ∃ u, upperBound? constants bound = some u ∧ -1 ≤ u ∧
      u < 2 ^ 127 - 1 ∧ k = u + 1 := by
  rw [length?, Option.bind_eq_some_iff]
  refine exists_congr fun u => and_congr_right fun _ => ?_
  rw [Option.filter_eq_some_iff, Integer.bounded_eq_some_iff, Integer.least, Integer.greatest,
    decide_eq_true_iff]
  omega

/-- A lower bound that is zero can be left out, and no other one has a length. -/
theorem length?_append_isTo {constants : Constants} {lower upper : List Lexeme} {word : Lexeme}
    (hlower : ∀ l ∈ lower, isTo l = false) (hupper : ∀ l ∈ upper, isTo l = false)
    (hword : isTo word = true) :
    length? constants (lower ++ word :: upper) =
      if fold dialect constants lower = some 0 then length? constants upper else none := by
  have hall : ∀ l ∈ lower, (!isTo l) = true := fun l hl => by rw [hlower l hl]; rfl
  have hstop : (!isTo word) = false := by rw [hword]; rfl
  have hbound : upperBound? constants (lower ++ word :: upper) =
      if fold dialect constants lower = some 0 then fold dialect constants upper else none := by
    rw [upperBound?, List.dropWhile_append_of_pos hall, List.takeWhile_append_of_pos hall,
      List.dropWhile_cons_of_neg (by simp [hstop]), List.takeWhile_cons_of_neg (by simp [hstop]),
      List.append_nil]
  rw [length?, hbound, length?, upperBound?_of_forall hupper]
  split <;> rfl

theorem isIdent_of_isArithmetic {l : Lexeme} (h : l.IsArithmetic) : l.isIdent = false := by
  have hkind : l.kind ≠ .ident := by
    rcases h with ⟨hnumber, -⟩ | ⟨p, -, hp⟩
    · simp [hnumber]
    · simp [SizeExpr.kind_of_isPunct hp]
  simpa [Lexeme.isIdent] using hkind

theorem readAlike_of_isArithmetic {l : Lexeme} (h : l.IsArithmetic) :
    SizeExpr.ReadAlike dialect CSharp.dialect l := by
  refine ⟨isIdent_of_isArithmetic h, fun hnumber => ?_⟩
  rcases h with ⟨-, hne, hdigits⟩ | ⟨p, -, hp⟩
  · exact (Language.visualBasic.literal?_of_forall_isDigit hne hdigits).trans
      (Language.csharp.literal?_of_forall_isDigit hne hdigits).symm
  · rw [SizeExpr.kind_of_isPunct hp] at hnumber
    cases hnumber

/-- Plain arithmetic has the same value in both languages. -/
theorem fold_of_isArithmetic {ls : List Lexeme} (hls : ∀ l ∈ ls, l.IsArithmetic)
    (constants table : Constants) :
    fold dialect constants ls = fold CSharp.dialect table ls :=
  SizeExpr.foldWithin_congr castsInBrackets castsNameTypes CSharp.castsInBrackets
    CSharp.castsNameTypes (fun l hl => readAlike_of_isArithmetic (hls l hl)) constants table
    maxConstantDepth

/-- The length of a bound is one more than its value, where that is represented and not negative.
With a lower bound it is that of the upper bound if the lower one is zero, and otherwise there is
none. The length of plain arithmetic is one more than its value in C#. -/
theorem length?_bounds (constants : Constants) :
    (∀ bound, (∀ l ∈ bound, isTo l = false) → ∀ k, length? constants bound = some k ↔
      ∃ u, fold dialect constants bound = some u ∧ -1 ≤ u ∧ u < 2 ^ 127 - 1 ∧ k = u + 1) ∧
    (∀ lower word upper, (∀ l ∈ lower, isTo l = false) → (∀ l ∈ upper, isTo l = false) →
      isTo word = true → length? constants (lower ++ word :: upper) =
        if fold dialect constants lower = some 0 then length? constants upper else none) ∧
    ∀ table ls v, (∀ l ∈ ls, l.IsArithmetic) → fold CSharp.dialect table ls = some v →
      0 ≤ v + 1 → v + 1 < 2 ^ 127 → length? constants ls = some (v + 1) := by
  refine ⟨fun bound hbound k => ?_, fun lower word upper hlower hupper hword => ?_,
    fun table ls v hls hv hpos hlt => ?_⟩
  · rw [length?_eq_some_iff, upperBound?_of_forall hbound]
  · exact length?_append_isTo hlower hupper hword
  · have hbound : ∀ l ∈ ls, isTo l = false := by
      intro l hl
      rw [isTo, isIdent_of_isArithmetic (hls l hl), Bool.false_and]
    rw [length?_eq_some_iff, upperBound?_of_forall hbound, fold_of_isArithmetic hls constants table]
    exact ⟨v, hv, by omega, by omega, rfl⟩

/-- The bounds `9`, `0 To 9` and `10 - 1` are those of ten elements. -/
theorem length?_bounds_ten :
    length? [] [⟨.number, "9"⟩] = some 10 ∧
      length? [] ([⟨.number, "0"⟩] ++ ⟨.ident, "To"⟩ :: [⟨.number, "9"⟩]) = some 10 ∧
      length? [] [⟨.number, "10"⟩, ⟨.punct, "-"⟩, ⟨.number, "1"⟩] = some (9 + 1) := by
  have hnine : fold dialect [] [⟨.number, "9"⟩] = some 9 :=
    SizeExpr.fold_number castsInBrackets literalsRepresented [] rfl (by decide)
  have hzero : fold dialect [] [⟨.number, "0"⟩] = some 0 :=
    SizeExpr.fold_number castsInBrackets literalsRepresented [] rfl (by decide)
  have hminuend : SizeExpr.HasValue CSharp.dialect [] 0 (.literal "10") 10 :=
    .literal (by decide) (by decide)
  have hsubtrahend : SizeExpr.HasValue CSharp.dialect [] 0 (.literal "1") 1 :=
    .literal (by decide) (by decide)
  have hdifference : fold CSharp.dialect []
      [⟨.number, "10"⟩, ⟨.punct, "-"⟩, ⟨.number, "1"⟩] = some (10 - 1) :=
    (fold_eq_some CSharp.castsInBrackets CSharp.literalsRepresented).2
      ⟨.subtract (.literal "10") (.literal "1"),
        .subtract (.ofProduct (.ofOperand (.number CSharp.castsInBrackets rfl _))) rfl
          (.ofOperand (.number CSharp.castsInBrackets rfl [])),
        .subtract hminuend hsubtrahend (by decide)⟩
  have hten : length? [] [⟨.number, "9"⟩] = some 10 :=
    ((length?_bounds []).1 [⟨.number, "9"⟩] (by decide) 10).2
      ⟨9, hnine, by decide, by decide, rfl⟩
  refine ⟨hten, ?_, ?_⟩
  · rw [(length?_bounds []).2.1 _ _ _ (by decide) (by decide) (by decide), if_pos hzero, hten]
  · refine (length?_bounds []).2.2 [] _ 9 ?_ hdifference (by decide) (by decide)
    simp [Lexeme.IsArithmetic, Lexeme.IsPlainNumber, Lexeme.isPunct]

end VisualBasic

end ZeroAlloc
