import ZeroAlloc.Place
import ZeroAlloc.Proofs.Directive
import ZeroAlloc.Proofs.SizeExpr.Relocation
set_option autoImplicit false

/-! # Definitions of constants

The search for the end of a definition counts round brackets. A size expression has its commas in
brackets only, so the search goes through all of it (`Spells.goesTo`) and finds the
separator behind it (`NamedDefinition.definition_value`). -/

namespace ZeroAlloc

/-! ## Rows without an end -/

/-- No definition ends in the row, which stands in a number of round brackets. -/
def GoesThrough (ends : Nat → Lexeme → Bool) (depth : Nat) (ls : List Lexeme) : Prop :=
  ∀ more, definition ends depth (ls ++ more) =
    (ls ++ (definition ends depth more).1, (definition ends depth more).2)

namespace GoesThrough

variable {ends : Nat → Lexeme → Bool} {depth : Nat} {l opening close : Lexeme}
  {ls inside : List Lexeme}

theorem nil : GoesThrough ends depth [] :=
  fun _ => rfl

theorem append {next : List Lexeme} (h : GoesThrough ends depth ls)
    (hnext : GoesThrough ends depth next) : GoesThrough ends depth (ls ++ next) := by
  intro more
  rw [List.append_assoc, h, hnext, List.append_assoc]

theorem plain (hend : ends depth l = false) (hopen : l.isPunct "(" = false)
    (hclose : l.isPunct ")" = false) (h : GoesThrough ends depth ls) :
    GoesThrough ends depth (l :: ls) := by
  intro more
  rw [List.cons_append, definition]
  simp only [hend, hopen, hclose, Bool.false_eq_true, if_false, h more]
  rfl

/-- A row in brackets stands one bracket deeper. -/
theorem group (hopen : opening.isPunct "(" = true) (hend : ends depth opening = false)
    (hinside : GoesThrough ends (depth + 1) inside) (hclose : close.isPunct ")" = true)
    (hend' : ends (depth + 1) close = false) :
    GoesThrough ends depth (opening :: (inside ++ [close])) := by
  intro more
  -- the closing bracket leads back to the depth in front of the opening one
  have hclosing : definition ends (depth + 1) (close :: more) =
      (close :: (definition ends depth more).1, (definition ends depth more).2) := by
    have hopen' : close.isPunct "(" = false := SizeExpr.isPunct_eq_decide "(" hclose
    rw [definition, hend', hopen', hclose]
    rfl
  rw [List.cons_append, List.append_assoc, List.singleton_append, definition, hend, hopen]
  simp only [Bool.false_eq_true, if_false, if_true, hinside (close :: more), hclosing]
  simp

/-- A row with nested brackets, of which no lexeme can end a definition. -/
theorem of_nested (h : BracketPair.parens.Nested ls)
    (hends : ∀ l ∈ ls, ∀ k, depth ≤ k → ends k l = false) : GoesThrough ends depth ls := by
  induction h generalizing depth with
  | nil => exact nil
  | plain hopen hclose _ ih =>
    refine plain (hends _ List.mem_cons_self depth (Nat.le_refl _)) hopen hclose ?_
    exact ih fun l hl => hends l (List.mem_cons_of_mem _ hl)
  | @group opening close inside ls hopen _ hclose _ ihinside ih =>
    have hgroup : GoesThrough ends depth (opening :: (inside ++ [close])) := by
      refine group hopen (hends _ (by simp) depth (Nat.le_refl _)) (ihinside ?_) hclose
        (hends _ (by simp) _ (Nat.le_succ _))
      exact fun l hl k hk => hends l (by simp [hl]) k (Nat.le_of_succ_le hk)
    have hrow : opening :: (inside ++ close :: ls) = opening :: (inside ++ [close]) ++ ls := by
      simp
    rw [hrow]
    exact hgroup.append (ih fun l hl => hends l (by simp [hl]))

end GoesThrough

/-- The second row ends the first one, and no definition ends in front of it if no line does. -/
def GoesTo (ends : Nat → Lexeme → Bool) (ls rest : List Lexeme) : Prop :=
  ∃ passed, ls = passed ++ rest ∧
    ((∀ l ∈ passed, l.isNewline = false) → ∀ depth, GoesThrough ends depth passed)

namespace GoesTo

variable {ends : Nat → Lexeme → Bool} {l : Lexeme} {ls mid rest : List Lexeme}

theorem step (ls : List Lexeme) (h : ∀ depth, GoesThrough ends depth [l]) :
    GoesTo ends (l :: ls) ls :=
  ⟨[l], rfl, fun _ => h⟩

theorem trans (h : GoesTo ends ls mid) (hmid : GoesTo ends mid rest) : GoesTo ends ls rest := by
  obtain ⟨first, rfl, hfirst⟩ := h
  obtain ⟨second, rfl, hsecond⟩ := hmid
  refine ⟨first ++ second, (List.append_assoc ..).symm, fun hline depth => ?_⟩
  exact (hfirst (fun l hl => hline l (List.mem_append_left _ hl)) depth).append
    (hsecond (fun l hl => hline l (List.mem_append_right _ hl)) depth)

end GoesTo

/-! ## Expressions -/

/-- Whether the lexeme can stand in an expression, outside of the brackets of conversions. -/
def isExpressionLexeme (l : Lexeme) : Bool :=
  decide (l.kind = .number) || l.isIdent || ["(", ")", "+", "-", "*", "."].any (l.isPunct ·)

theorem isNewline_of_isExpressionLexeme {l : Lexeme} (h : isExpressionLexeme l = true) :
    l.isNewline = false := by
  obtain ⟨kind, text⟩ := l
  cases kind with
  | newline => cases h
  | _ => rfl

theorem isPunct_eq_false_of_isExpressionLexeme {l : Lexeme} (h : isExpressionLexeme l = true)
    {p : String} (hp : p ∉ ["(", ")", "+", "-", "*", "."]) : l.isPunct p = false := by
  cases hpunct : l.isPunct p with
  | false => rfl
  | true =>
    rw [Lexeme.eq_punct hpunct] at h
    have hmark : ["(", ")", "+", "-", "*", "."].any ((Lexeme.punct p).isPunct ·) = true := h
    exact absurd (by simpa using hmark) hp

/-- Within a line, a definition may only end outside of brackets, and there at no lexeme that can
stand in an expression. -/
structure EndsOutside (ends : Nat → Lexeme → Bool) : Prop where
  inside : ∀ {depth l}, l.isNewline = false → ends (depth + 1) l = false
  outside : ∀ {l}, isExpressionLexeme l = true → ends 0 l = false

/-- The marks of every cast of the dialect are words and points in brackets. -/
def Dialect.CastsPlain (d : Dialect) : Prop :=
  ∀ {ls width}, d.castWidth? ls = some width → BracketPair.parens.Nested (ls.take width) ∧
    ∀ l ∈ ls.take width, isExpressionLexeme l = true

namespace EndsOutside

variable {ends : Nat → Lexeme → Bool} {l : Lexeme} {ls : List Lexeme}

/-- No definition ends at a lexeme of an expression. -/
theorem eq_false (h : EndsOutside ends) (hl : isExpressionLexeme l = true) (depth : Nat) :
    ends depth l = false := by
  cases depth with
  | zero => exact h.outside hl
  | succ depth => exact h.inside (isNewline_of_isExpressionLexeme hl)

theorem goesThrough_word (h : EndsOutside ends)
    (hl : (decide (l.kind = .number) || l.isIdent) = true) (depth : Nat) :
    GoesThrough ends depth [l] := by
  have hkind : l.kind ≠ .punct := by
    intro hkind
    simp [Lexeme.isIdent, hkind] at hl
  refine .plain (h.eq_false ?_ depth) (SizeExpr.isPunct_eq_false_of_kind _ hkind)
    (SizeExpr.isPunct_eq_false_of_kind _ hkind) .nil
  rw [isExpressionLexeme, hl, Bool.true_or]

theorem goesThrough_operator (h : EndsOutside ends) {p : String} (hp : p ∈ ["+", "-", "*"])
    (hl : l.isPunct p = true) (depth : Nat) : GoesThrough ends depth [l] := by
  obtain rfl := Lexeme.eq_punct hl
  have hplain : ∀ p ∈ ["+", "-", "*"], isExpressionLexeme (.punct p) = true ∧
      (Lexeme.punct p).isPunct "(" = false ∧ (Lexeme.punct p).isPunct ")" = false := by decide
  obtain ⟨hexpression, hopen, hclose⟩ := hplain p hp
  exact .plain (h.eq_false hexpression depth) hopen hclose .nil

theorem goesThrough_group (h : EndsOutside ends) {opening close : Lexeme} {depth : Nat}
    (hopen : opening.isPunct "(" = true) (hinside : GoesThrough ends (depth + 1) ls)
    (hclose : close.isPunct ")" = true) :
    GoesThrough ends depth (opening :: (ls ++ [close])) := by
  obtain rfl := Lexeme.eq_punct hopen
  obtain rfl := Lexeme.eq_punct hclose
  exact .group rfl (h.eq_false (by decide) _) hinside rfl (h.eq_false (by decide) _)

/-- A conversion ends one bracket deeper than it stands. -/
theorem goesThrough_conversion (h : EndsOutside ends) {opening : Lexeme} {depth : Nat}
    {passed : List Lexeme} (hopen : opening.isPunct "(" = true)
    (hinside : GoesThrough ends (depth + 1) ls) (hend : SizeExpr.EndsConversion passed [])
    (hline : ∀ l ∈ passed, l.isNewline = false) :
    GoesThrough ends depth (opening :: (ls ++ passed)) := by
  cases hend with
  | closed hclose => exact h.goesThrough_group hopen hinside hclose
  | @further comma close inside _ hcomma hnested hclose =>
    -- what follows the first argument is still in the brackets of the conversion
    have hrow : ls ++ comma :: (inside ++ [close]) = (ls ++ comma :: inside) ++ [close] := by simp
    rw [hrow]
    refine h.goesThrough_group hopen (hinside.append ?_) hclose
    refine .of_nested (.plain (SizeExpr.isPunct_eq_decide _ hcomma)
      (SizeExpr.isPunct_eq_decide _ hcomma) hnested) fun l hl k hk => ?_
    obtain ⟨k, rfl⟩ := Nat.exists_eq_succ_of_ne_zero (n := k) (by omega)
    refine h.inside (hline l ?_)
    rw [← List.cons_append]
    exact List.mem_append_left _ hl

end EndsOutside

namespace SizeExpr

variable {d : Dialect} {ends : Nat → Lexeme → Bool} {category : Category} {e : SizeExpr}
  {ls rest : List Lexeme}

/-- No definition ends within an expression. -/
theorem Spells.goesTo (hends : EndsOutside ends) (hcasts : d.CastsPlain)
    (h : Spells d category ls e rest) : GoesTo ends ls rest := by
  have operator {p : String} (hp : p ∈ ["+", "-", "*"]) {sign : Lexeme} (ls : List Lexeme)
      (hsign : sign.isPunct p = true) : GoesTo ends (sign :: ls) ls :=
    .step ls (hends.goesThrough_operator hp hsign)
  induction h with
  | ofProduct _ ih => exact ih
  | add _ hplus _ ih₁ ih₂ => exact ih₁.trans ((operator (by decide) _ hplus).trans ih₂)
  | subtract _ hminus _ ih₁ ih₂ => exact ih₁.trans ((operator (by decide) _ hminus).trans ih₂)
  | ofOperand _ ih => exact ih
  | multiply _ htimes _ ih₁ ih₂ => exact ih₁.trans ((operator (by decide) _ htimes).trans ih₂)
  | negate hminus _ ih => exact (operator (by decide) _ hminus).trans ih
  | plus hplus _ ih => exact (operator (by decide) _ hplus).trans ih
  | @cast ls rest width e hcast _ ih =>
    obtain ⟨hnested, hplain⟩ := hcasts hcast
    -- the marks hold no separator at all, so it does not matter what brackets they have
    have hmarks : GoesTo ends ls (ls.drop width) :=
      ⟨ls.take width, (List.take_append_drop width ls).symm, fun _ _ =>
        .of_nested hnested fun l hl k _ => hends.eq_false (hplain l hl) k⟩
    exact hmarks.trans ih
  | ofPrimary _ _ ih => exact ih
  | literal hnumber => exact .step _ (hends.goesThrough_word (by simp [hnumber]))
  | @group opening close ls rest e hopen _ hclose ih =>
    obtain ⟨passed, rfl, hpassed⟩ := ih
    refine ⟨opening :: (passed ++ [close]), by simp, fun hline depth => ?_⟩
    refine hends.goesThrough_group hopen (hpassed ?_ _) hclose
    exact fun l hl => hline l (by simp [hl])
  | @convert name opening ls after rest e hname _ hopen _ hend ih =>
    obtain ⟨passed, rfl, hpassed⟩ := ih
    obtain ⟨tail, rfl, htail⟩ := hend.exists_passed
    -- behind the name stands one group, with the argument and the end of the conversion
    refine (GoesTo.step _ (hends.goesThrough_word (by simp [hname]))).trans
      ⟨opening :: (passed ++ tail), by simp, fun hline depth => ?_⟩
    refine hends.goesThrough_conversion hopen (hpassed ?_ _) htail ?_
    · exact fun l hl => hline l (by simp [hl])
    · exact fun l hl => hline l (by simp [hl])
  | constant hname _ => exact .step _ (hends.goesThrough_word (by simp [hname]))

/-- The definition of an expression on one line ends at the separator behind it. -/
theorem Spells.definition_append (hends : EndsOutside ends) (hcasts : d.CastsPlain)
    (h : Spells d .sum ls e []) (hline : ∀ l ∈ ls, l.isNewline = false) {separator : Lexeme}
    (hseparator : ends 0 separator = true) (rest : List Lexeme) :
    definition ends 0 (ls ++ separator :: rest) = (ls, separator :: rest) := by
  obtain ⟨passed, hpassed, hgoes⟩ := h.goesTo hends hcasts
  obtain rfl : ls = passed := hpassed.trans (List.append_nil passed)
  have hend : definition ends 0 (separator :: rest) = ([], separator :: rest) := by
    rw [definition, if_pos hseparator]
  rw [hgoes hline 0, hend, List.append_nil]

end SizeExpr

/-! ## Named definitions -/

/-- A name and the size expression that defines it, on one line and without the word that declares
constants. -/
structure NamedDefinition (d : Dialect) (isConst : Lexeme → Bool) where
  name : Lexeme
  isName : name.isIdent = true
  value : List Lexeme
  isExpression : ∃ e, SizeExpr.Spells d .sum value e []
  isOnLine : ∀ l ∈ value, l.isNewline = false
  isOther : ∀ l ∈ name :: value, isConst l = false

namespace NamedDefinition

variable {d : Dialect} {isConst : Lexeme → Bool} (n : NamedDefinition d isConst)

/-- The text of the name, and the definition. -/
def entry : String × List Lexeme :=
  (n.name.text, n.value)

/-- What is declared: the name in its canonical form, and the definition. -/
def declared : String × List Lexeme :=
  (d.canonicalName n.name.text, n.value)

theorem map_declared (ns : List (NamedDefinition d isConst)) :
    ns.map declared = (ns.map entry).map fun p => (d.canonicalName p.1, p.2) := by
  rw [List.map_map]
  rfl

/-- The end of a definition is the separator behind it. -/
theorem definition_value {ends : Nat → Lexeme → Bool} (hends : EndsOutside ends)
    (hcasts : d.CastsPlain) {separator : Lexeme} (hseparator : ends 0 separator = true)
    (rest : List Lexeme) :
    definition ends 0 (n.value ++ separator :: rest) = (n.value, separator :: rest) := by
  obtain ⟨e, h⟩ := n.isExpression
  exact h.definition_append hends hcasts n.isOnLine hseparator rest

theorem withoutNewlines_value : withoutNewlines n.value = n.value :=
  withoutNewlines_eq_self n.isOnLine

end NamedDefinition

end ZeroAlloc
