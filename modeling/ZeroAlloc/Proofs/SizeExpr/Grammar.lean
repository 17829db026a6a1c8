import ZeroAlloc.Proofs.SizeExpr.Bare
set_option autoImplicit false

/-! # The grammar of size expressions

The readers read exactly what the grammar derives (`parse?_eq_some_iff`), for every dialect whose
casts start with a bracket. The grammar is ambiguous about what may follow: a row in brackets is a
cast only if more stands behind it. So a derivation says what follows its expression. -/

namespace ZeroAlloc

/-- Every cast of the dialect starts with an opening bracket. -/
structure Dialect.CastsInBrackets (d : Dialect) : Prop where
  width_pos : ∀ {ls width}, d.castWidth? ls = some width → 0 < width
  startsWith : ∀ {ls width}, d.castWidth? ls = some width → startsWithPunct "(" ls = true

namespace SizeExpr

/-! ## Derivations -/

/-- The row ends a conversion: its closing bracket, or a comma, further tokens with nested brackets
and the closing bracket. -/
inductive EndsConversion : List Lexeme → List Lexeme → Prop where
  | closed {close : Lexeme} {rest : List Lexeme} (hclose : close.isPunct ")" = true) :
      EndsConversion (close :: rest) rest
  | further {comma close : Lexeme} {inside rest : List Lexeme} (hcomma : comma.isPunct "," = true)
      (hinside : BracketPair.parens.Nested inside) (hclose : close.isPunct ")" = true) :
      EndsConversion (comma :: (inside ++ close :: rest)) rest

/-- The categories of the grammar. -/
inductive Category where
  | sum
  | product
  | operand
  | primary

/-- The row starts with an expression of the category, and the second row follows it. -/
inductive Spells (d : Dialect) : Category → List Lexeme → SizeExpr → List Lexeme → Prop where
  | ofProduct {ls rest : List Lexeme} {e : SizeExpr} (h : Spells d .product ls e rest) :
      Spells d .sum ls e rest
  | add {ls mid rest : List Lexeme} {plus : Lexeme} {e₁ e₂ : SizeExpr}
      (h₁ : Spells d .sum ls e₁ (plus :: mid)) (hplus : plus.isPunct "+" = true)
      (h₂ : Spells d .product mid e₂ rest) : Spells d .sum ls (.add e₁ e₂) rest
  | subtract {ls mid rest : List Lexeme} {minus : Lexeme} {e₁ e₂ : SizeExpr}
      (h₁ : Spells d .sum ls e₁ (minus :: mid)) (hminus : minus.isPunct "-" = true)
      (h₂ : Spells d .product mid e₂ rest) : Spells d .sum ls (.subtract e₁ e₂) rest
  | ofOperand {ls rest : List Lexeme} {e : SizeExpr} (h : Spells d .operand ls e rest) :
      Spells d .product ls e rest
  | multiply {ls mid rest : List Lexeme} {times : Lexeme} {e₁ e₂ : SizeExpr}
      (h₁ : Spells d .product ls e₁ (times :: mid)) (htimes : times.isPunct "*" = true)
      (h₂ : Spells d .operand mid e₂ rest) : Spells d .product ls (.multiply e₁ e₂) rest
  | negate {ls rest : List Lexeme} {minus : Lexeme} {e : SizeExpr}
      (hminus : minus.isPunct "-" = true) (h : Spells d .operand ls e rest) :
      Spells d .operand (minus :: ls) (.negate e) rest
  | plus {ls rest : List Lexeme} {plus : Lexeme} {e : SizeExpr}
      (hplus : plus.isPunct "+" = true) (h : Spells d .operand ls e rest) :
      Spells d .operand (plus :: ls) e rest
  | cast {ls rest : List Lexeme} {width : Nat} {e : SizeExpr}
      (hcast : d.castWidth? ls = some width) (h : Spells d .operand (ls.drop width) e rest) :
      Spells d .operand ls (.cast (ls.take width) e) rest
  | ofPrimary {ls rest : List Lexeme} {e : SizeExpr} (hcast : d.castWidth? ls = none)
      (h : Spells d .primary ls e rest) : Spells d .operand ls e rest
  | literal {number : Lexeme} {rest : List Lexeme} (hnumber : number.kind = .number) :
      Spells d .primary (number :: rest) (.literal number.text) rest
  | group {opening close : Lexeme} {ls rest : List Lexeme} {e : SizeExpr}
      (hopen : opening.isPunct "(" = true) (h : Spells d .sum ls e (close :: rest))
      (hclose : close.isPunct ")" = true) : Spells d .primary (opening :: ls) e rest
  | convert {name opening : Lexeme} {ls after rest : List Lexeme} {e : SizeExpr}
      (hname : name.isIdent = true) (hconversion : d.isConversion name.text = true)
      (hopen : opening.isPunct "(" = true) (h : Spells d .sum ls e after)
      (hend : EndsConversion after rest) :
      Spells d .primary (name :: opening :: ls) (.convert name.text e) rest
  | constant {name : Lexeme} {rest : List Lexeme} (hname : name.isIdent = true)
      (hconversion : (startsWithPunct "(" rest && d.isConversion name.text) = false) :
      Spells d .primary (name :: rest) (.constant name.text) rest

variable {d : Dialect} {e e₁ : SizeExpr} {l : Lexeme} {ls rest : List Lexeme}

/-! ## Punctuation -/

theorem isPunct_eq_decide {p : String} (q : String) (h : l.isPunct p = true) :
    l.isPunct q = decide (p = q) := by
  simp only [Lexeme.isPunct, Bool.and_eq_true, decide_eq_true_eq] at h
  simp [Lexeme.isPunct, h.1, h.2]

theorem kind_of_isPunct {p : String} (h : l.isPunct p = true) : l.kind = .punct := by
  simp only [Lexeme.isPunct, Bool.and_eq_true, decide_eq_true_eq] at h
  exact h.1

theorem kind_of_isIdent (h : l.isIdent = true) : l.kind = .ident := by
  simpa [Lexeme.isIdent] using h

theorem isPunct_eq_false_of_kind (q : String) (h : l.kind ≠ .punct) : l.isPunct q = false := by
  simp [Lexeme.isPunct, h]

/-! ## Ends of conversions -/

/-- What the search for the end of a conversion passes over starts with the comma. -/
theorem untilClose_cons_eq_some_iff {comma : Lexeme} (hcomma : comma.isPunct "," = true) :
    (∃ inside, BracketPair.parens.untilClose 0 (comma :: ls) = some (inside, rest)) ↔
      ∃ inside close, close.isPunct ")" = true ∧ ls = inside ++ close :: rest ∧
        BracketPair.parens.Nested inside := by
  have hopen : comma.isPunct BracketPair.parens.opening = false := isPunct_eq_decide _ hcomma
  have hclose : comma.isPunct BracketPair.parens.closing = false := isPunct_eq_decide _ hcomma
  constructor
  · rintro ⟨passed, hpassed⟩
    obtain ⟨close, hend, hls, hnested⟩ :=
      (BracketPair.untilClose_eq_some_iff (by decide)).1 hpassed
    cases hnested with
    | nil =>
      cases hls
      rw [hclose] at hend
      cases hend
    | plain _ _ hinside =>
      cases hls
      exact ⟨_, close, hend, rfl, hinside⟩
    | group hopen' =>
      cases hls
      rw [hopen] at hopen'
      cases hopen'
  · rintro ⟨inside, close, hend, rfl, hinside⟩
    exact ⟨comma :: inside, (BracketPair.untilClose_eq_some_iff (by decide)).2
      ⟨close, hend, rfl, .plain hopen hclose hinside⟩⟩

theorem bareEnd_eq_some_iff : bareEnd ls = some rest ↔ EndsConversion ls rest := by
  constructor
  · intro h
    cases ls with
    | nil => cases h
    | cons l ls =>
      rw [bareEnd_cons] at h
      split at h
      · rename_i hclose
        cases h
        exact .closed hclose
      · split at h
        · rename_i hcomma
          obtain ⟨⟨passed, after⟩, hpassed, rfl⟩ := Option.map_eq_some_iff.1 h
          obtain ⟨inside, close, hclose, rfl, hinside⟩ :=
            (untilClose_cons_eq_some_iff hcomma).1 ⟨passed, hpassed⟩
          exact .further hcomma hinside hclose
        · cases h
  · intro h
    cases h with
    | closed hclose => rw [bareEnd_cons, if_pos hclose]
    | further hcomma hinside hclose =>
      obtain ⟨passed, hpassed⟩ :=
        (untilClose_cons_eq_some_iff hcomma).2 ⟨_, _, hclose, rfl, hinside⟩
      rw [bareEnd_cons, isPunct_eq_decide ")" hcomma, if_neg (by decide), if_pos hcomma, hpassed]
      rfl

/-! ## What is read is derived -/

/-- Whatever a reader reads from a row of at most `n` lexemes is derived. -/
def Sound (d : Dialect) (category : Category) (n : Nat)
    (read? : (ls : List Lexeme) → Option (SizeExpr × Rest ls)) : Prop :=
  ∀ ls rest e, ls.length ≤ n → bare (read? ls) = some (e, rest) → Spells d category ls e rest

theorem sound_zero (category : Category)
    (read? : (ls : List Lexeme) → Option (SizeExpr × Rest ls)) : Sound d category 0 read? := by
  intro ls rest e hn h
  have := length_lt_of_bare h
  omega

theorem sound_primary {n : Nat} (hsum : Sound d .sum n (sum? d)) :
    Sound d .primary (n + 1) (primary? d) := by
  rintro (_ | ⟨l, ls⟩) rest e hn h
  · have := length_lt_of_bare h
    simp at this
  rw [List.length_cons] at hn
  rw [bare_primary_cons] at h
  split at h
  · rename_i hnumber
    cases h
    exact .literal hnumber
  split at h
  · rename_i hopen
    obtain ⟨⟨e, _ | ⟨close, after⟩⟩, hinside, hclose⟩ := Option.bind_eq_some_iff.1 h
    · cases hclose
    · dsimp only at hclose
      split at hclose
      · rename_i hpunct
        cases hclose
        exact .group hopen (hsum _ _ _ (by omega) hinside) hpunct
      · cases hclose
  split at h
  · rename_i hname
    split at h
    · rename_i hconversion
      rw [Bool.and_eq_true] at hconversion
      obtain ⟨⟨e, after⟩, hinside, hend⟩ := Option.bind_eq_some_iff.1 h
      obtain ⟨r, hr, he⟩ := Option.map_eq_some_iff.1 hend
      cases he
      cases ls with
      | nil => cases hconversion.1
      | cons opening ls =>
        rw [List.length_cons] at hn
        exact .convert hname hconversion.2 hconversion.1 (hsum _ _ _ (by omega) hinside)
          (bareEnd_eq_some_iff.1 hr)
    · rename_i hconversion
      cases h
      exact .constant hname (Bool.eq_false_iff.2 hconversion)
  · cases h

theorem sound_operand (hd : d.CastsInBrackets) {n : Nat} (hsum : Sound d .sum n (sum? d)) :
    Sound d .operand (n + 1) (operand? d) := by
  -- behind a sign or a cast stands a shorter operand
  suffices h : ∀ m ≤ n + 1, Sound d .operand m (operand? d) from h (n + 1) (Nat.le_refl _)
  intro m hm
  induction m with
  | zero => exact sound_zero _ _
  | succ m ih =>
    have ih := ih (by omega)
    rintro (_ | ⟨l, ls⟩) rest e hn h
    · have := length_lt_of_bare h
      simp at this
    rw [List.length_cons] at hn
    rw [bare_operand_cons] at h
    split at h
    · rename_i hminus
      obtain ⟨⟨e, r⟩, hoperand, he⟩ := Option.map_eq_some_iff.1 h
      cases he
      exact .negate hminus (ih _ _ _ (by omega) hoperand)
    split at h
    · rename_i hplus
      exact .plus hplus (ih _ _ _ (by omega) h)
    cases hcast : d.castWidth? (l :: ls) with
    | none =>
      rw [hcast] at h
      exact .ofPrimary hcast (sound_primary hsum _ _ _ (by rw [List.length_cons]; omega) h)
    | some width =>
      rw [hcast] at h
      obtain ⟨⟨e, r⟩, hoperand, he⟩ := Option.map_eq_some_iff.1 h
      cases he
      refine .cast hcast ?_
      rw [List.drop_cons (hd.width_pos hcast)]
      refine ih _ _ _ ?_ hoperand
      rw [List.length_drop]
      omega

theorem spells_of_productFrom {n : Nat} (hoperand : Sound d .operand n (operand? d))
    {start ls rest : List Lexeme} {e₁ e : SizeExpr} (hn : ls.length ≤ n)
    (hstart : Spells d .product start e₁ ls) (h : bare (productFrom? d e₁ ls) = some (e, rest)) :
    Spells d .product start e rest := by
  induction hlength : ls.length using Nat.strongRecOn generalizing ls e₁ with
  | ind m ih =>
    subst hlength
    cases ls with
    | nil =>
      rw [bare_productFrom_nil] at h
      cases h
      exact hstart
    | cons times ls =>
      rw [List.length_cons] at hn
      rw [bare_productFrom_cons] at h
      split at h
      · rename_i htimes
        obtain ⟨⟨e₂, mid⟩, h₂, hfrom⟩ := Option.bind_eq_some_iff.1 h
        have hmid := length_lt_of_bare h₂
        have hmore := Spells.multiply hstart htimes (hoperand _ _ _ (by omega) h₂)
        exact ih mid.length (by rw [List.length_cons]; omega) (by omega) hmore hfrom rfl
      · cases h
        exact hstart

theorem sound_product {n : Nat} (hoperand : Sound d .operand n (operand? d)) :
    Sound d .product n (product? d) := by
  intro ls rest e hn h
  rw [bare_product] at h
  obtain ⟨⟨e₁, mid⟩, h₁, hfrom⟩ := Option.bind_eq_some_iff.1 h
  have hmid := length_lt_of_bare h₁
  exact spells_of_productFrom hoperand (by omega) (.ofOperand (hoperand _ _ _ hn h₁)) hfrom

theorem spells_of_sumFrom {n : Nat} (hproduct : Sound d .product n (product? d))
    {start ls rest : List Lexeme} {e₁ e : SizeExpr} (hn : ls.length ≤ n)
    (hstart : Spells d .sum start e₁ ls) (h : bare (sumFrom? d e₁ ls) = some (e, rest)) :
    Spells d .sum start e rest := by
  induction hlength : ls.length using Nat.strongRecOn generalizing ls e₁ with
  | ind m ih =>
    subst hlength
    cases ls with
    | nil =>
      rw [bare_sumFrom_nil] at h
      cases h
      exact hstart
    | cons sign ls =>
      rw [List.length_cons] at hn
      rw [bare_sumFrom_cons] at h
      split at h
      · rename_i hplus
        obtain ⟨⟨e₂, mid⟩, h₂, hfrom⟩ := Option.bind_eq_some_iff.1 h
        have hmid := length_lt_of_bare h₂
        have hmore := Spells.add hstart hplus (hproduct _ _ _ (by omega) h₂)
        exact ih mid.length (by rw [List.length_cons]; omega) (by omega) hmore hfrom rfl
      · split at h
        · rename_i hminus
          obtain ⟨⟨e₂, mid⟩, h₂, hfrom⟩ := Option.bind_eq_some_iff.1 h
          have hmid := length_lt_of_bare h₂
          have hmore := Spells.subtract hstart hminus (hproduct _ _ _ (by omega) h₂)
          exact ih mid.length (by rw [List.length_cons]; omega) (by omega) hmore hfrom rfl
        · cases h
          exact hstart

theorem sound_sum (hd : d.CastsInBrackets) (n : Nat) : Sound d .sum n (sum? d) := by
  induction n with
  | zero => exact sound_zero _ _
  | succ n ih =>
    have hproduct := sound_product (sound_operand hd ih)
    intro ls rest e hn h
    rw [bare_sum] at h
    obtain ⟨⟨e₁, mid⟩, h₁, hfrom⟩ := Option.bind_eq_some_iff.1 h
    have hmid := length_lt_of_bare h₁
    exact spells_of_sumFrom hproduct (by omega) (.ofProduct (hproduct _ _ _ hn h₁)) hfrom

/-! ## What is derived is read -/

/-- What a derivation promises of the reader of its category. Sums and products go on behind what is
derived; a sum may only end where its last product does. -/
def Reads (d : Dialect) (ls : List Lexeme) (e : SizeExpr) (rest : List Lexeme) : Category → Prop
  | .sum => startsWithPunct "*" rest = false → bare (sum? d ls) = bare (sumFrom? d e rest)
  | .product => bare (product? d ls) = bare (productFrom? d e rest)
  | .operand => bare (operand? d ls) = some (e, rest)
  | .primary => bare (primary? d ls) = some (e, rest)

theorem bare_productFrom_of_stop (h : startsWithPunct "*" rest = false) :
    bare (productFrom? d e rest) = some (e, rest) := by
  cases rest with
  | nil => exact bare_productFrom_nil
  | cons l rest =>
    rw [startsWithPunct_cons] at h
    rw [bare_productFrom_cons, if_neg (Bool.eq_false_iff.1 h)]

theorem bare_sumFrom_of_stop (hplus : startsWithPunct "+" rest = false)
    (hminus : startsWithPunct "-" rest = false) : bare (sumFrom? d e rest) = some (e, rest) := by
  cases rest with
  | nil => exact bare_sumFrom_nil
  | cons l rest =>
    rw [startsWithPunct_cons] at hplus hminus
    rw [bare_sumFrom_cons, if_neg (Bool.eq_false_iff.1 hplus), if_neg (Bool.eq_false_iff.1 hminus)]

/-- A sum that ends before a bracket or a comma is read as it is derived. -/
theorem bare_sum_of_reads {p : String} (hread : Reads d ls e (l :: rest) .sum)
    (hl : l.isPunct p = true) (hp : p = ")" ∨ p = ",") :
    bare (sum? d ls) = some (e, l :: rest) := by
  have hstop : ∀ q ∈ ["*", "+", "-"], startsWithPunct q (l :: rest) = false := by
    intro q hq
    rw [startsWithPunct_cons, isPunct_eq_decide q hl]
    rcases hp with rfl | rfl <;> revert q <;> decide
  rw [hread (hstop "*" (by decide))]
  exact bare_sumFrom_of_stop (hstop "+" (by decide)) (hstop "-" (by decide))

/-- No primary expression starts with a sign. -/
theorem Spells.primary_head (h : Spells d .primary ls e rest) :
    ∃ l more, ls = l :: more ∧ l.isPunct "-" = false ∧ l.isPunct "+" = false := by
  have hword {l : Lexeme} (hkind : l.kind ≠ .punct) :
      l.isPunct "-" = false ∧ l.isPunct "+" = false :=
    ⟨isPunct_eq_false_of_kind _ hkind, isPunct_eq_false_of_kind _ hkind⟩
  cases h with
  | literal hnumber => exact ⟨_, _, rfl, hword (by simp [hnumber])⟩
  | group hopen => exact ⟨_, _, rfl, isPunct_eq_decide _ hopen, isPunct_eq_decide _ hopen⟩
  | convert hname => exact ⟨_, _, rfl, hword (by simp [kind_of_isIdent hname])⟩
  | constant hname => exact ⟨_, _, rfl, hword (by simp [kind_of_isIdent hname])⟩

/-! ### Readers by what the row starts with -/

theorem bare_operand_of_minus (h : l.isPunct "-" = true) :
    bare (operand? d (l :: ls)) = (bare (operand? d ls)).map fun p => (.negate p.1, p.2) := by
  rw [bare_operand_cons, if_pos h]

theorem bare_operand_of_plus (h : l.isPunct "+" = true) :
    bare (operand? d (l :: ls)) = bare (operand? d ls) := by
  rw [bare_operand_cons, isPunct_eq_decide "-" h, if_neg (by decide), if_pos h]

/-- Signs are tried before casts, but a cast starts with a bracket. -/
theorem bare_operand_of_cast (hd : d.CastsInBrackets) {width : Nat}
    (hcast : d.castWidth? ls = some width) :
    bare (operand? d ls) =
      (bare (operand? d (ls.drop width))).map fun p => (.cast (ls.take width) p.1, p.2) := by
  cases ls with
  | nil => cases hd.startsWith hcast
  | cons l ls =>
    have hopen : l.isPunct "(" = true := hd.startsWith hcast
    rw [bare_operand_cons, isPunct_eq_decide "-" hopen, if_neg (by decide),
      isPunct_eq_decide "+" hopen, if_neg (by decide), hcast, List.drop_cons (hd.width_pos hcast)]

theorem bare_operand_of_primary (h : Spells d .primary ls e rest)
    (hcast : d.castWidth? ls = none) : bare (operand? d ls) = bare (primary? d ls) := by
  obtain ⟨l, ls, rfl, hminus, hplus⟩ := h.primary_head
  rw [bare_operand_cons, hminus, if_neg (by decide), hplus, if_neg (by decide), hcast]

theorem bare_primary_of_bracket (h : l.isPunct "(" = true) :
    bare (primary? d (l :: ls)) = (bare (sum? d ls)).bind fun p =>
      if startsWithPunct ")" p.2 then some (p.1, p.2.tail) else none := by
  rw [bare_primary_cons, if_neg (by simp [kind_of_isPunct h]), if_pos h]

theorem bare_primary_of_ident (h : l.isIdent = true) :
    bare (primary? d (l :: ls)) =
      if startsWithPunct "(" ls && d.isConversion l.text then
        (bare (sum? d ls.tail)).bind fun p =>
          (bareEnd p.2).map fun rest => (.convert l.text p.1, rest)
      else some (.constant l.text, ls) := by
  have hkind := kind_of_isIdent h
  rw [bare_primary_cons, if_neg (by simp [hkind]),
    isPunct_eq_false_of_kind "(" (by simp [hkind]), if_neg (by decide), if_pos h]

theorem reads_of_spells (hd : d.CastsInBrackets) {category : Category}
    (h : Spells d category ls e rest) : Reads d ls e rest category := by
  induction h with
  | @ofProduct ls rest e h ih =>
    intro hstop
    -- the product ends where it is derived to end, since no further factor follows
    rw [bare_sum, ih, bare_productFrom_of_stop hstop]
    rfl
  | @add ls mid rest plus e₁ e₂ h₁ hplus h₂ ih₁ ih₂ =>
    intro hstop
    rw [ih₁ (isPunct_eq_decide _ hplus), bare_sumFrom_cons, if_pos hplus, ih₂,
      bare_productFrom_of_stop hstop]
    rfl
  | @subtract ls mid rest minus e₁ e₂ h₁ hminus h₂ ih₁ ih₂ =>
    intro hstop
    rw [ih₁ (isPunct_eq_decide _ hminus), bare_sumFrom_cons, isPunct_eq_decide "+" hminus,
      if_neg (by decide), if_pos hminus, ih₂, bare_productFrom_of_stop hstop]
    rfl
  | @ofOperand ls rest e h ih =>
    rw [Reads, bare_product, ih]
    rfl
  | @multiply ls mid rest times e₁ e₂ h₁ htimes h₂ ih₁ ih₂ =>
    rw [Reads, ih₁, bare_productFrom_cons, if_pos htimes, ih₂]
    rfl
  | negate hminus h ih =>
    rw [Reads, bare_operand_of_minus hminus, ih]
    rfl
  | plus hplus h ih => rw [Reads, bare_operand_of_plus hplus, ih]
  | cast hcast h ih =>
    rw [Reads, bare_operand_of_cast hd hcast, ih]
    rfl
  | ofPrimary hcast h ih => rw [Reads, bare_operand_of_primary h hcast, ih]
  | literal hnumber => rw [Reads, bare_primary_cons, if_pos hnumber]
  | group hopen h hclose ih =>
    rw [Reads, bare_primary_of_bracket hopen, bare_sum_of_reads ih hclose (.inl rfl)]
    exact if_pos hclose
  | @convert name opening ls after rest e hname hconversion hopen h hend ih =>
    -- a bracket or a comma follows the first argument, so its sum ends there
    have hsum : bare (sum? d ls) = some (e, after) := by
      cases hend with
      | closed hclose => exact bare_sum_of_reads ih hclose (.inl rfl)
      | further hcomma _ _ => exact bare_sum_of_reads ih hcomma (.inr rfl)
    rw [Reads, bare_primary_of_ident hname, startsWithPunct_cons, hopen, hconversion,
      Bool.and_self, if_pos rfl, List.tail_cons, hsum, Option.bind_some,
      bareEnd_eq_some_iff.2 hend]
    rfl
  | constant hname hconversion =>
    rw [Reads, bare_primary_of_ident hname, hconversion, if_neg (by decide)]

/-! ## Whole rows -/

theorem parse?_eq_some_iff_bare : parse? d ls = some e ↔ bare (sum? d ls) = some (e, []) := by
  unfold parse?
  rcases sum? d ls with _ | ⟨e₁, ⟨_ | ⟨l, rest⟩, h⟩⟩ <;> simp [bare]

/-- A row spells the expression that the grammar derives for all of it. -/
theorem parse?_eq_some_iff (hd : d.CastsInBrackets) :
    parse? d ls = some e ↔ Spells d .sum ls e [] := by
  rw [parse?_eq_some_iff_bare]
  constructor
  · exact sound_sum hd ls.length ls [] e (Nat.le_refl _)
  · intro h
    have hread : bare (sum? d ls) = bare (sumFrom? d e []) := reads_of_spells hd h rfl
    rw [hread, bare_sumFrom_nil]

end SizeExpr

end ZeroAlloc
