import Mathlib.Data.List.Forall2
import Mathlib.Logic.Relation
import ZeroAlloc.Proofs.Fold
import ZeroAlloc.Proofs.SizeExpr.Relocation
set_option autoImplicit false

/-! # Inlining constants

A constant is worth what its definition is worth in its place, in brackets: inlining constants into
an expression keeps its value (`fold_of_inlines`). It also saves definitions to go through, which
are limited: a chain of constants has a value only if it is short (`fold_of_isChain`), and a
constant that leads back to itself has none (`fold_eq_none_of_transGen`). All of this holds of every
dialect that sees a cast by its marks alone, so of both languages (`Language.fold_inlining`). -/

namespace ZeroAlloc

namespace SizeExpr

/-- Both rows start with an expression of the category, and the second one shows the definitions of
some of the constants that are looked up in the first one, in brackets. The last two rows of each
pair follow the expressions. -/
inductive Inlines (d : Dialect) (constants : Constants) :
    Category → List Lexeme → List Lexeme → List Lexeme → List Lexeme → Prop where
  | ofProduct {ls rest ls' rest' : List Lexeme}
      (h : Inlines d constants .product ls rest ls' rest') :
      Inlines d constants .sum ls rest ls' rest'
  | further {ls mid rest ls' mid' rest' : List Lexeme} {sign : Lexeme}
      (h₁ : Inlines d constants .sum ls (sign :: mid) ls' (sign :: mid'))
      (hsign : sign.isPunct "+" = true ∨ sign.isPunct "-" = true)
      (h₂ : Inlines d constants .product mid rest mid' rest') :
      Inlines d constants .sum ls rest ls' rest'
  | ofOperand {ls rest ls' rest' : List Lexeme}
      (h : Inlines d constants .operand ls rest ls' rest') :
      Inlines d constants .product ls rest ls' rest'
  | multiply {ls mid rest ls' mid' rest' : List Lexeme} {times : Lexeme}
      (h₁ : Inlines d constants .product ls (times :: mid) ls' (times :: mid'))
      (htimes : times.isPunct "*" = true)
      (h₂ : Inlines d constants .operand mid rest mid' rest') :
      Inlines d constants .product ls rest ls' rest'
  | signed {ls rest ls' rest' : List Lexeme} {sign : Lexeme}
      (hsign : sign.isPunct "-" = true ∨ sign.isPunct "+" = true)
      (h : Inlines d constants .operand ls rest ls' rest') :
      Inlines d constants .operand (sign :: ls) rest (sign :: ls') rest'
  | cast {ls rest ls' rest' : List Lexeme} {width : Nat} (hcast : d.castWidth? ls = some width)
      (h : Inlines d constants .operand (ls.drop width) rest ls' rest') :
      Inlines d constants .operand ls rest (ls.take width ++ ls') rest'
  | ofPrimary {ls rest ls' rest' : List Lexeme} (hcast : d.castWidth? ls = none)
      (h : Inlines d constants .primary ls rest ls' rest') :
      Inlines d constants .operand ls rest ls' rest'
  | literal {rest rest' : List Lexeme} {number : Lexeme} (hnumber : number.kind = .number) :
      Inlines d constants .primary (number :: rest) rest (number :: rest') rest'
  | group {ls rest ls' rest' : List Lexeme} {opening close : Lexeme}
      (hopen : opening.isPunct "(" = true)
      (h : Inlines d constants .sum ls (close :: rest) ls' (close :: rest'))
      (hclose : close.isPunct ")" = true) :
      Inlines d constants .primary (opening :: ls) rest (opening :: ls') rest'
  | convert {ls passed rest ls' rest' : List Lexeme} {name opening : Lexeme}
      (hname : name.isIdent = true) (hconversion : d.isConversion name.text = true)
      (hopen : opening.isPunct "(" = true)
      (h : Inlines d constants .sum ls (passed ++ rest) ls' (passed ++ rest'))
      (hend : EndsConversion passed []) :
      Inlines d constants .primary (name :: opening :: ls) rest (name :: opening :: ls') rest'
  | kept {rest rest' : List Lexeme} {name : Lexeme} (hname : name.isIdent = true)
      (hconversion : (startsWithPunct "(" rest && d.isConversion name.text) = false) :
      Inlines d constants .primary (name :: rest) rest (name :: rest') rest'
  | inlined {definition rest rest' : List Lexeme} {name opening close : Lexeme}
      (hname : name.isIdent = true)
      (hconversion : (startsWithPunct "(" rest && d.isConversion name.text) = false)
      (hget : constants.get? (d.canonicalName name.text) = some definition)
      (hopen : opening.isPunct "(" = true) (hclose : close.isPunct ")" = true) :
      Inlines d constants .primary (name :: rest) rest
        (opening :: (definition ++ close :: rest')) rest'

variable {d : Dialect} {constants : Constants} {types : List String} {e : SizeExpr} {n : Int}
  {depth : Nat}

/-! ## Values of names -/

namespace HasValue

/-- Nearer to the start an expression has all values that it has deeper down. -/
theorem mono (h : HasValue d constants depth e n) {other : Nat} (hle : other ≤ depth) :
    HasValue d constants other e n := by
  induction h generalizing other with
  | literal hliteral hn => exact .literal hliteral hn
  | constant hdepth hget hspells _ ih =>
    exact .constant (Nat.lt_of_le_of_lt hle hdepth) hget hspells (ih (Nat.succ_le_succ hle))
  | negate _ hn ih => exact .negate (ih hle) hn
  | cast _ ih => exact .cast (ih hle)
  | convert _ ih => exact .convert (ih hle)
  | add _ _ hn ih₁ ih₂ => exact .add (ih₁ hle) (ih₂ hle) hn
  | subtract _ _ hn ih₁ ih₂ => exact .subtract (ih₁ hle) (ih₂ hle) hn
  | multiply _ _ hn ih₁ ih₂ => exact .multiply (ih₁ hle) (ih₂ hle) hn

/-- The names of an expression with a value have values themselves. -/
theorem exists_of_mem_names (h : HasValue d constants depth e n) {name : String}
    (hname : name ∈ e.names) : ∃ m, HasValue d constants depth (.constant name) m := by
  induction h with
  | literal => cases hname
  | constant hdepth hget hspells h _ =>
    obtain rfl := List.mem_singleton.1 hname
    exact ⟨_, .constant hdepth hget hspells h⟩
  | negate _ _ ih => exact ih hname
  | cast _ ih => exact ih hname
  | convert _ ih => exact ih hname
  | add _ _ _ ih₁ ih₂ => exact (List.mem_append.1 hname).elim ih₁ ih₂
  | subtract _ _ _ ih₁ ih₂ => exact (List.mem_append.1 hname).elim ih₁ ih₂
  | multiply _ _ _ ih₁ ih₂ => exact (List.mem_append.1 hname).elim ih₁ ih₂

/-- No name of an expression with a value is that of a type, if no constant is called like one. -/
theorem notMem_types (hfree : ∀ name ∈ types, constants.get? (d.canonicalName name) = none)
    (h : HasValue d constants depth e n) : ∀ name ∈ e.names, name ∉ types := by
  intro name hname htype
  obtain ⟨m, hm⟩ := h.exists_of_mem_names hname
  cases hm with
  | constant _ hget =>
    rw [hfree name htype] at hget
    cases hget

end HasValue

/-! ## Inlining -/

/-- Where the expression has a value, the row is an expression with that value, too. -/
def KeepsValues (d : Dialect) (constants : Constants) (category : Category) (ls : List Lexeme)
    (e : SizeExpr) (rest : List Lexeme) : Prop :=
  ∀ ⦃depth n⦄, HasValue d constants depth e n → startsWithPunct "(" rest = false →
    ∃ e', Spells d category ls e' rest ∧ HasValue d constants depth e' n

/-- The operation is worth something only where its operands are, and is worth the same with other
operands that are worth as much. -/
def ByValues (d : Dialect) (constants : Constants) (op : SizeExpr → SizeExpr → SizeExpr) : Prop :=
  ∀ {depth e₁ e₂ n}, HasValue d constants depth (op e₁ e₂) n →
    ∃ n₁ n₂, HasValue d constants depth e₁ n₁ ∧ HasValue d constants depth e₂ n₂ ∧
      ∀ {e₁' e₂'}, HasValue d constants depth e₁' n₁ → HasValue d constants depth e₂' n₂ →
        HasValue d constants depth (op e₁' e₂') n

theorem byValues_add : ByValues d constants .add := by
  intro depth e₁ e₂ n h
  cases h with
  | add h₁ h₂ hn => exact ⟨_, _, h₁, h₂, (.add · · hn)⟩

theorem byValues_subtract : ByValues d constants .subtract := by
  intro depth e₁ e₂ n h
  cases h with
  | subtract h₁ h₂ hn => exact ⟨_, _, h₁, h₂, (.subtract · · hn)⟩

theorem byValues_multiply : ByValues d constants .multiply := by
  intro depth e₁ e₂ n h
  cases h with
  | multiply h₁ h₂ hn => exact ⟨_, _, h₁, h₂, (.multiply · · hn)⟩

namespace KeepsValues

variable {inner left right category : Category} {ls ls' mid rest rest' : List Lexeme}
  {e₁ e₂ : SizeExpr} {sign : Lexeme} {op : SizeExpr → SizeExpr → SizeExpr}

/-- What stands around an operand leaves it its value. -/
theorem map (h : KeepsValues d constants inner ls e rest)
    (hrest : startsWithPunct "(" rest' = false → startsWithPunct "(" rest = false)
    (hspells : ∀ {e'}, Spells d inner ls e' rest → Spells d category ls' e' rest') :
    KeepsValues d constants category ls' e rest' := by
  intro depth n hn hrest'
  obtain ⟨e', hspells', hn'⟩ := h hn (hrest hrest')
  exact ⟨e', hspells hspells', hn'⟩

/-- An operation of two rows keeps its values if its operands do. -/
theorem binary (hop : ByValues d constants op)
    (h₁ : KeepsValues d constants left ls e₁ (sign :: mid)) (hsign : sign.isPunct "(" = false)
    (h₂ : KeepsValues d constants right mid e₂ rest)
    (hspells : ∀ {e₁ e₂}, Spells d left ls e₁ (sign :: mid) → Spells d right mid e₂ rest →
      Spells d category ls (op e₁ e₂) rest) :
    KeepsValues d constants category ls (op e₁ e₂) rest := by
  intro depth n hn hrest
  obtain ⟨n₁, n₂, hn₁, hn₂, hvalue⟩ := hop hn
  obtain ⟨e₁', hspells₁, hn₁'⟩ := h₁ hn₁ hsign
  obtain ⟨e₂', hspells₂, hn₂'⟩ := h₂ hn₂ hrest
  exact ⟨op e₁' e₂', hspells hspells₁ hspells₂, hvalue hn₁' hn₂'⟩

/-- In brackets the definition of a constant is worth what the constant is. -/
theorem inlined (hd : d.CastsInBrackets) (htypes : d.CastsNameTypes types)
    (hfree : ∀ name ∈ types, constants.get? (d.canonicalName name) = none)
    {definition : List Lexeme} {name : String} {opening close : Lexeme}
    (hget : constants.get? (d.canonicalName name) = some definition)
    (hopen : opening.isPunct "(" = true) (hclose : close.isPunct ")" = true) :
    KeepsValues d constants .primary (opening :: (definition ++ close :: rest)) (.constant name)
      rest := by
  intro depth n hn _
  cases hn with
  | constant _ hget' hspells hn =>
    obtain rfl := Option.some.inj (hget.symm.trans hget')
    obtain ⟨row, rfl, hrow⟩ := hspells.relocate hd htypes (hn.notMem_types hfree)
    have hinside := hrow (close :: rest) (isPunct_eq_decide "(" hclose)
    rw [List.append_nil]
    exact ⟨_, .group hopen hinside hclose, hn.mono (Nat.le_succ _)⟩

end KeepsValues

/-- The second row is an expression too, and has the value of the first one. -/
theorem Inlines.exists_spells (hd : d.CastsInBrackets) (htypes : d.CastsNameTypes types)
    (hfree : ∀ name ∈ types, constants.get? (d.canonicalName name) = none)
    {category : Category} {ls rest ls' rest' : List Lexeme}
    (h : Inlines d constants category ls rest ls' rest') :
    ∃ e, Spells d category ls e rest ∧ KeepsValues d constants category ls' e rest' := by
  induction h with
  | ofProduct _ ih =>
    obtain ⟨e, hspells, hvalue⟩ := ih
    exact ⟨e, .ofProduct hspells, hvalue.map id .ofProduct⟩
  | further _ hsign _ ih₁ ih₂ =>
    obtain ⟨e₁, hspells₁, hvalue₁⟩ := ih₁
    obtain ⟨e₂, hspells₂, hvalue₂⟩ := ih₂
    rcases hsign with hplus | hminus
    · exact ⟨.add e₁ e₂, .add hspells₁ hplus hspells₂,
        .binary byValues_add hvalue₁ (isPunct_eq_decide "(" hplus) hvalue₂ (.add · hplus ·)⟩
    · exact ⟨.subtract e₁ e₂, .subtract hspells₁ hminus hspells₂,
        .binary byValues_subtract hvalue₁ (isPunct_eq_decide "(" hminus) hvalue₂
          (.subtract · hminus ·)⟩
  | ofOperand _ ih =>
    obtain ⟨e, hspells, hvalue⟩ := ih
    exact ⟨e, .ofOperand hspells, hvalue.map id .ofOperand⟩
  | multiply _ htimes _ ih₁ ih₂ =>
    obtain ⟨e₁, hspells₁, hvalue₁⟩ := ih₁
    obtain ⟨e₂, hspells₂, hvalue₂⟩ := ih₂
    exact ⟨.multiply e₁ e₂, .multiply hspells₁ htimes hspells₂,
      .binary byValues_multiply hvalue₁ (isPunct_eq_decide "(" htimes) hvalue₂
        (.multiply · htimes ·)⟩
  | signed hsign _ ih =>
    obtain ⟨e, hspells, hvalue⟩ := ih
    rcases hsign with hminus | hplus
    · refine ⟨.negate e, .negate hminus hspells, fun _ _ hn hrest => ?_⟩
      cases hn with
      | negate h hn =>
        obtain ⟨e', hspells', hn'⟩ := hvalue h hrest
        exact ⟨.negate e', .negate hminus hspells', .negate hn' hn⟩
    · exact ⟨e, .plus hplus hspells, hvalue.map id (.plus hplus)⟩
  | cast hcast _ ih =>
    obtain ⟨e, hspells, hvalue⟩ := ih
    refine ⟨_, .cast hcast hspells, fun _ _ hn hrest => ?_⟩
    cases hn with
    | cast hn =>
      obtain ⟨e', hspells', hn'⟩ := hvalue hn hrest
      exact ⟨_, .cast_append htypes hcast hspells.ne_nil hspells', .cast hn'⟩
  | ofPrimary hcast _ ih =>
    obtain ⟨e, hspells, hvalue⟩ := ih
    refine ⟨e, .ofPrimary hcast hspells, fun _ _ hn hrest => ?_⟩
    obtain ⟨e', hspells', hn'⟩ := hvalue hn hrest
    exact ⟨e', .ofPrimary_of_names hd htypes hspells' (hn'.notMem_types hfree), hn'⟩
  | literal hnumber => exact ⟨_, .literal hnumber, fun _ _ hn _ => ⟨_, .literal hnumber, hn⟩⟩
  | group hopen _ hclose ih =>
    obtain ⟨e, hspells, hvalue⟩ := ih
    exact ⟨e, .group hopen hspells hclose,
      hvalue.map (fun _ => isPunct_eq_decide "(" hclose) (.group hopen · hclose)⟩
  | convert hname hconversion hopen _ hend ih =>
    obtain ⟨e, hspells, hvalue⟩ := ih
    refine ⟨_, .convert hname hconversion hopen hspells (hend.append _), fun _ _ hn _ => ?_⟩
    cases hn with
    | convert hn =>
      obtain ⟨e', hspells', hn'⟩ := hvalue hn (hend.startsWithPunct_append _)
      exact ⟨_, .convert hname hconversion hopen hspells' (hend.append _), .convert hn'⟩
  | kept hname hconversion =>
    refine ⟨_, .constant hname hconversion, fun _ _ hn hrest => ⟨_, .constant hname ?_, hn⟩⟩
    rw [hrest, Bool.false_and]
  | inlined hname hconversion hget hopen hclose =>
    exact ⟨_, .constant hname hconversion, .inlined hd htypes hfree hget hopen hclose⟩

/-- A row is one expression only. -/
theorem Spells.unique (hd : d.CastsInBrackets) {ls : List Lexeme} {other : SizeExpr}
    (h : Spells d .sum ls e []) (hother : Spells d .sum ls other []) : e = other :=
  Option.some.inj (((parse?_eq_some_iff hd).2 h).symm.trans ((parse?_eq_some_iff hd).2 hother))

/-- Inlining constants keeps the value. -/
theorem fold_of_inlines (hd : d.CastsInBrackets) (hliterals : d.LiteralsRepresented)
    (htypes : d.CastsNameTypes types)
    (hfree : ∀ name ∈ types, constants.get? (d.canonicalName name) = none) {ls ls' : List Lexeme}
    (h : Inlines d constants .sum ls [] ls' []) (hfold : fold d constants ls = some n) :
    fold d constants ls' = some n := by
  obtain ⟨e, hspells, hn⟩ := (fold_eq_some hd hliterals).1 hfold
  obtain ⟨other, hother, hvalue⟩ := h.exists_spells hd htypes hfree
  obtain rfl := hspells.unique hd hother
  obtain ⟨e', hspells', hn'⟩ := hvalue hn rfl
  exact (fold_eq_some hd hliterals).2 ⟨e', hspells', hn'⟩

/-! ## Chains -/

/-- Each name is defined as the next one, and the last name as the row `last`. -/
inductive IsChain (d : Dialect) (constants : Constants) (last : List Lexeme) :
    List Lexeme → Prop where
  | last {name : Lexeme} (hname : name.isIdent = true)
      (hget : constants.get? (d.canonicalName name.text) = some last) :
      IsChain d constants last [name]
  | next {name next : Lexeme} {names : List Lexeme} (hname : name.isIdent = true)
      (hget : constants.get? (d.canonicalName name.text) = some [next])
      (h : IsChain d constants last (next :: names)) :
      IsChain d constants last (name :: next :: names)

/-- A name alone is worth what its definition is worth one level deeper. -/
theorem foldWithin_name (hd : d.CastsInBrackets) {name : Lexeme} (hname : name.isIdent = true)
    (levels : Nat) :
    foldWithin d constants (levels + 1) [name] =
      (constants.get? (d.canonicalName name.text)).bind (foldWithin d constants levels) := by
  rw [foldWithin, (parse?_eq_some_iff hd).2 (.name hd hname)]
  rfl

/-- An expression without names has its value at every level but the last. -/
theorem foldWithin_of_names_eq_nil {ls : List Lexeme} (hfree : ∀ e ∈ parse? d ls, e.names = [])
    (levels other : Nat) :
    foldWithin d constants (levels + 1) ls = foldWithin d constants (other + 1) ls := by
  rw [foldWithin, foldWithin]
  cases hparse : parse? d ls with
  | none => rfl
  | some e =>
    refine eval?_congr fun name hname => ?_
    rw [hfree e hparse] at hname
    cases hname

/-- The value of a chain takes one level for each of its names and one for the last definition. The
induction is on the chain. -/
theorem IsChain.foldWithin_eq (hd : d.CastsInBrackets) {last names : List Lexeme}
    (h : IsChain d constants last names) (hfree : ∀ e ∈ parse? d last, e.names = []) {v : Int}
    (hv : fold d constants last = some v) (levels : Nat) {name : Lexeme}
    (hhead : names.head? = some name) :
    foldWithin d constants levels [name] = if names.length < levels then some v else none := by
  induction h generalizing name levels with
  | last hname hget =>
    obtain rfl := Option.some.inj hhead
    cases levels with
    | zero => rfl
    | succ levels =>
      rw [foldWithin_name hd hname, hget, Option.bind_some]
      cases levels with
      | zero => rfl
      | succ levels =>
        rw [foldWithin_of_names_eq_nil hfree levels maxConstantDepth]
        exact hv.trans (if_pos (by simp)).symm
  | next hname hget _ ih =>
    obtain rfl := Option.some.inj hhead
    cases levels with
    | zero => rfl
    | succ levels =>
      rw [foldWithin_name hd hname, hget, Option.bind_some, ih levels rfl]
      simp

/-- A chain of names has the value of its last definition just if there are at most 16 of them. -/
theorem fold_of_isChain (hd : d.CastsInBrackets) {last : List Lexeme} {names : List Lexeme}
    {name : Lexeme} (h : IsChain d constants last (name :: names))
    (hfree : ∀ e ∈ parse? d last, e.names = []) {v : Int} (hv : fold d constants last = some v) :
    fold d constants [name] = if names.length + 1 ≤ 16 then some v else none := by
  rw [fold, h.foldWithin_eq hd hfree hv _ rfl, List.length_cons]
  simp [maxConstantDepth, Nat.lt_succ_iff]

/-! ## Cycles -/

/-- Whatever expression the definition of the first constant is, it names the second one, so the
value of the first constant can only be found through that of the second. -/
def DependsOn (d : Dialect) (constants : Constants) (name other : String) : Prop :=
  ∃ definition, constants.get? name = some definition ∧
    ∀ e ∈ parse? d definition, ∃ inner ∈ e.names, d.canonicalName inner = other

/-- Behind a constant with a value, those that it depends on have values, too, deeper down. -/
theorem HasValue.exists_of_dependsOn (hd : d.CastsInBrackets) {name other : String}
    (hdepends : DependsOn d constants (d.canonicalName name) other)
    (h : HasValue d constants depth (.constant name) n) :
    ∃ inner m, d.canonicalName inner = other ∧
      HasValue d constants (depth + 1) (.constant inner) m := by
  obtain ⟨definition, hget, hnames⟩ := hdepends
  cases h with
  | constant _ hget' hspells h =>
    obtain rfl := Option.some.inj (hget.symm.trans hget')
    obtain ⟨inner, hinner, hother⟩ := hnames _ ((parse?_eq_some_iff hd).2 hspells)
    obtain ⟨m, hm⟩ := h.exists_of_mem_names hinner
    exact ⟨inner, m, hother, hm⟩

/-- The same for whatever they lead to. -/
theorem HasValue.exists_of_transGen (hd : d.CastsInBrackets) {name other : String}
    (hdepends : Relation.TransGen (DependsOn d constants) (d.canonicalName name) other)
    (h : HasValue d constants depth (.constant name) n) :
    ∃ inner m deeper, d.canonicalName inner = other ∧ depth < deeper ∧
      HasValue d constants deeper (.constant inner) m := by
  induction hdepends with
  | single hstep =>
    obtain ⟨inner, m, hinner, hm⟩ := h.exists_of_dependsOn hd hstep
    exact ⟨inner, m, depth + 1, hinner, Nat.lt_succ_self _, hm⟩
  | tail _ hstep ih =>
    obtain ⟨inner, m, deeper, rfl, hlt, hm⟩ := ih
    obtain ⟨inner', m', hinner', hm'⟩ := hm.exists_of_dependsOn hd hstep
    exact ⟨inner', m', deeper + 1, hinner', Nat.lt_succ_of_lt hlt, hm'⟩

/-- A constant that leads back to itself has no value: it would have values at all depths. -/
theorem not_hasValue_of_transGen (hd : d.CastsInBrackets) {name : String}
    (hcycle : Relation.TransGen (DependsOn d constants) (d.canonicalName name)
      (d.canonicalName name)) : ¬HasValue d constants depth (.constant name) n := by
  intro h
  have deep (k : Nat) : ∃ inner m deeper, d.canonicalName inner = d.canonicalName name ∧
      k ≤ deeper ∧ HasValue d constants deeper (.constant inner) m := by
    induction k with
    | zero => exact ⟨name, n, depth, rfl, Nat.zero_le _, h⟩
    | succ k ih =>
      obtain ⟨inner, m, deeper, hinner, hle, hm⟩ := ih
      rw [← hinner] at hcycle ⊢
      obtain ⟨inner', m', deeper', hinner', hlt, hm'⟩ := hm.exists_of_transGen hd hcycle
      exact ⟨inner', m', deeper', hinner', Nat.lt_of_le_of_lt hle hlt, hm'⟩
  obtain ⟨inner, m, deeper, -, hle, hm⟩ := deep maxConstantDepth
  cases hm with
  | constant hdepth => exact absurd hdepth (Nat.not_lt.2 hle)

theorem fold_eq_none_of_transGen (hd : d.CastsInBrackets) (hliterals : d.LiteralsRepresented)
    {name : Lexeme} (hname : name.isIdent = true)
    (hcycle : Relation.TransGen (DependsOn d constants) (d.canonicalName name.text)
      (d.canonicalName name.text)) : fold d constants [name] = none := by
  refine Option.eq_none_iff_forall_not_mem.2 fun v hv => ?_
  obtain ⟨e, hspells, hvalue⟩ := (fold_eq_some hd hliterals).1 hv
  obtain rfl := hspells.unique hd (.name hd hname)
  exact not_hasValue_of_transGen hd hcycle hvalue

end SizeExpr

/-! ## The casts of both languages -/

open SizeExpr (isPunct_eq_decide)

namespace CSharp

/-- A cast is the path of an integral type in brackets, with an operand behind it. -/
theorem castWidth?_eq_some_iff {ls : List Lexeme} {width : Nat} :
    castWidth? ls = some width ↔ ∃ opening inside name path close operand rest,
      ls = opening :: inside ∧ opening.isPunct "(" = true ∧
        dottedName? inside = some (name, path, close :: operand :: rest) ∧
        name ∈ integralTypes ∧ close.isPunct ")" = true ∧ width = path + 2 := by
  constructor
  · intro h
    unfold castWidth? at h
    split at h
    · cases h
    next opening inside =>
      split at h
      next hopen =>
        split at h
        next name path close operand rest hname =>
          split at h
          next hcast =>
            rw [Bool.and_eq_true, List.contains_iff_mem] at hcast
            cases h
            exact ⟨opening, inside, name, path, close, operand, rest, rfl, hopen, hname, hcast.1,
              hcast.2, rfl⟩
          · cases h
        · cases h
      · cases h
  · rintro ⟨opening, inside, name, path, close, operand, rest, rfl, hopen, hname, htype, hclose,
      rfl⟩
    simp [castWidth?, hopen, hname, htype, hclose]

/-- A dotted name is read in front of everything but another dot. -/
theorem exists_of_dottedName? {ls rest : List Lexeme} {last : String} {width : Nat}
    (h : dottedName? ls = some (last, width, rest)) :
    ∃ path, ls = path ++ rest ∧ path.length = width ∧ ∀ rest', startsWithPunct "." rest' = false →
      dottedName? (path ++ rest') = some (last, width, rest') := by
  have single {l : Lexeme} (hl : l.isIdent = true) (rest' : List Lexeme)
      (hrest : startsWithPunct "." rest' = false) :
      dottedName? ([l] ++ rest') = some (l.text, 1, rest') := by
    cases rest' with
    | nil => simp [dottedName?, hl]
    | cons dot rest' =>
      rw [startsWithPunct_cons] at hrest
      simp [dottedName?, hl, hrest]
  fun_induction dottedName? ls generalizing last width rest with
  | case1 => cases h
  | case2 l hl =>
    cases h
    exact ⟨[l], rfl, rfl, single hl⟩
  | case3 => cases h
  | case4 => cases h
  | case5 l dot ls hl hdot ih =>
    obtain ⟨⟨name, path, after⟩, hname, heq⟩ := Option.map_eq_some_iff.1 h
    cases heq
    obtain ⟨path, rfl, rfl, hpath⟩ := ih hname
    refine ⟨l :: dot :: path, rfl, rfl, fun rest' hrest => ?_⟩
    have hl' : l.isIdent = true := by simpa using hl
    simp [dottedName?, hl', hdot, hpath rest' hrest]
  | case6 l dot ls hl hdot =>
    cases h
    exact ⟨[l], rfl, rfl, single (by simpa using hl)⟩

/-- A dotted name is one word, or a word in front of a dot. -/
theorem exists_cons_of_dottedName? {ls rest : List Lexeme} {last : String} {width : Nat}
    (h : dottedName? ls = some (last, width, rest)) :
    ∃ l more, ls = l :: more ∧ l.isIdent = true ∧
      (startsWithPunct "." more = true ∨ more = rest ∧ l.text = last) := by
  fun_cases dottedName? ls with
  | case1 => cases h
  | case2 l hl =>
    simp only [dottedName?, if_pos hl] at h
    cases h
    exact ⟨l, [], rfl, hl, .inr ⟨rfl, rfl⟩⟩
  | case3 l hl => simp [dottedName?, hl] at h
  | case4 l dot ls hl => simp [dottedName?, hl] at h
  | case5 l dot ls hl hdot => exact ⟨l, dot :: ls, rfl, by simpa using hl, .inl hdot⟩
  | case6 l dot ls hl hdot =>
    have hl' : l.isIdent = true := by simpa using hl
    simp only [dottedName?, hl', hdot] at h
    cases h
    exact ⟨l, dot :: ls, rfl, hl', .inr ⟨rfl, rfl⟩⟩

/-- A cast keeps its marks in front of another operand. -/
theorem castWidth?_take_append {ls : List Lexeme} {width : Nat} (h : castWidth? ls = some width)
    (l : Lexeme) (more : List Lexeme) : castWidth? (ls.take width ++ l :: more) = some width := by
  obtain ⟨opening, inside, name, path, close, operand, rest, rfl, hopen, hname, htype, hclose,
    rfl⟩ := castWidth?_eq_some_iff.1 h
  obtain ⟨row, rfl, rfl, hrow⟩ := exists_of_dottedName? hname
  have htake : (opening :: (row ++ close :: operand :: rest)).take (row.length + 2) =
      opening :: (row ++ [close]) := by
    rw [List.take_succ_cons, List.take_append, List.take_of_length_le (by omega)]
    simp
  refine castWidth?_eq_some_iff.2 ⟨opening, row ++ close :: l :: more, name, row.length, close, l,
    more, ?_, hopen, hrow _ (isPunct_eq_decide "." hclose), htype, hclose, rfl⟩
  rw [htake]
  simp

/-- In the brackets of a cast stands the name of a type alone, or a longer path. -/
theorem exists_of_castWidth?_cons {opening : Lexeme} {ls : List Lexeme} {width : Nat}
    (h : castWidth? (opening :: ls) = some width) :
    ∃ name next more, ls = name :: next :: more ∧ name.isIdent = true ∧
      (next.isPunct "." = true ∨ next.isPunct ")" = true ∧ name.text ∈ integralTypes) := by
  obtain ⟨_, inside, last, path, close, operand, rest, heq, hopen, hlast, htype, hclose, rfl⟩ :=
    castWidth?_eq_some_iff.1 h
  obtain ⟨rfl, rfl⟩ := List.cons.inj heq
  obtain ⟨name, more, rfl, hname, hmore⟩ := exists_cons_of_dottedName? hlast
  cases more with
  | nil => simp [startsWithPunct] at hmore
  | cons next more =>
    refine ⟨name, next, more, rfl, hname, hmore.imp id ?_⟩
    rintro ⟨heq, rfl⟩
    obtain rfl := (List.cons.inj heq).1
    exact ⟨hclose, htype⟩

theorem castsNameTypes : dialect.CastsNameTypes integralTypes where
  sameMarks := castWidth?_take_append
  named := exists_of_castWidth?_cons

end CSharp

/-- There are no casts. -/
theorem VisualBasic.castsNameTypes : dialect.CastsNameTypes [] where
  sameMarks h := by cases h
  named h := by cases h

namespace Language

/-- The names of types that casts of sizes may have. -/
def castTypes : Language → List String
  | csharp => CSharp.integralTypes
  | visualBasic => []

theorem castsNameTypes (language : Language) :
    language.dialect.CastsNameTypes language.castTypes := by
  cases language with
  | csharp => exact CSharp.castsNameTypes
  | visualBasic => exact VisualBasic.castsNameTypes

/-- Inlining constants that are not called like the types of casts keeps the value of an expression.
A chain of constants that ends with an expression without constants has its value if the chain has
at most 16 constants, and none otherwise. A constant that depends on itself has no value. -/
theorem fold_inlining (language : Language) (constants : Constants) :
    ((∀ name ∈ language.castTypes,
        constants.get? (language.dialect.canonicalName name) = none) →
      ∀ ls ls' v, fold language.dialect constants ls = some v →
        SizeExpr.Inlines language.dialect constants .sum ls [] ls' [] →
          fold language.dialect constants ls' = some v) ∧
    (∀ last name names v, SizeExpr.IsChain language.dialect constants last (name :: names) →
      (∀ e ∈ SizeExpr.parse? language.dialect last, e.names = []) →
        fold language.dialect constants last = some v →
          fold language.dialect constants [name] =
            if names.length + 1 ≤ 16 then some v else none) ∧
    ∀ l : Lexeme, l.isIdent = true →
      Relation.TransGen (SizeExpr.DependsOn language.dialect constants)
        (language.dialect.canonicalName l.text) (language.dialect.canonicalName l.text) →
        fold language.dialect constants [l] = none := by
  refine ⟨fun hfree ls ls' v hv h => ?_, fun last name names v h hlast hv => ?_,
    fun l hl hcycle => ?_⟩
  · exact SizeExpr.fold_of_inlines language.castsInBrackets language.literalsRepresented
      language.castsNameTypes hfree h hv
  · exact SizeExpr.fold_of_isChain language.castsInBrackets h hlast hv
  · exact SizeExpr.fold_eq_none_of_transGen language.castsInBrackets language.literalsRepresented hl
      hcycle

/-- `N` is five, `M` is `N`, and `C` is defined as itself. -/
def smallTable : Constants :=
  [("N", [⟨.number, "5"⟩]), ("M", [⟨.ident, "N"⟩]), ("C", [⟨.ident, "C"⟩])]

/-- `(5) + 1` has the value of `N + 1`, `M` has that of `N`, and `C` has none. -/
theorem fold_inlining_smallTable :
    fold csharp.dialect smallTable
        [⟨.punct, "("⟩, ⟨.number, "5"⟩, ⟨.punct, ")"⟩, ⟨.punct, "+"⟩, ⟨.number, "1"⟩] = some 6 ∧
      fold csharp.dialect smallTable [⟨.ident, "M"⟩] = some 5 ∧
      fold csharp.dialect smallTable [⟨.ident, "C"⟩] = none := by
  have hfree : ∀ name ∈ csharp.castTypes,
      smallTable.get? (csharp.dialect.canonicalName name) = none := by decide
  have hd := csharp.castsInBrackets
  have hliterals : csharp.dialect.LiteralsRepresented := csharp.literalsRepresented
  have hfive : SizeExpr.HasValue csharp.dialect smallTable 1 (.literal "5") 5 :=
    .literal (by decide) (by decide)
  have hunit : SizeExpr.HasValue csharp.dialect smallTable 0 (.literal "1") 1 :=
    .literal (by decide) (by decide)
  have hspells : SizeExpr.Spells csharp.dialect .sum [⟨.number, "5"⟩] (.literal "5") [] :=
    .ofProduct (.ofOperand (.number hd rfl []))
  have hsum : fold csharp.dialect smallTable
      [⟨.ident, "N"⟩, ⟨.punct, "+"⟩, ⟨.number, "1"⟩] = some (5 + 1) :=
    (fold_eq_some hd hliterals).2 ⟨.add (.constant "N") (.literal "1"),
      .add (.ofProduct (.ofOperand (.ofPrimary rfl (.constant rfl rfl)))) rfl
        (.ofOperand (.number hd rfl [])),
      .add (.constant (by decide) rfl hspells hfive) hunit (by decide)⟩
  have hN : SizeExpr.Inlines csharp.dialect smallTable .primary
      [⟨.ident, "N"⟩, ⟨.punct, "+"⟩, ⟨.number, "1"⟩] [⟨.punct, "+"⟩, ⟨.number, "1"⟩]
      (⟨.punct, "("⟩ :: ([⟨.number, "5"⟩] ++ ⟨.punct, ")"⟩ :: [⟨.punct, "+"⟩, ⟨.number, "1"⟩]))
      [⟨.punct, "+"⟩, ⟨.number, "1"⟩] := .inlined rfl rfl rfl rfl rfl
  have hone : SizeExpr.Inlines csharp.dialect smallTable .product [⟨.number, "1"⟩] []
      [⟨.number, "1"⟩] [] := .ofOperand (.ofPrimary rfl (.literal rfl))
  have hlast : fold csharp.dialect smallTable [⟨.number, "5"⟩] = some 5 :=
    SizeExpr.fold_number hd hliterals smallTable rfl (by decide)
  have hparse := (SizeExpr.parse?_eq_some_iff hd).2 hspells
  have hcycle : SizeExpr.parse? csharp.dialect [⟨.ident, "C"⟩] = some (.constant "C") :=
    (SizeExpr.parse?_eq_some_iff hd).2 (.name hd rfl)
  refine ⟨(fold_inlining csharp smallTable).1 hfree _ _ 6 hsum
      (.further (.ofProduct (.ofOperand (.ofPrimary rfl hN))) (.inl rfl) hone),
    (fold_inlining csharp smallTable).2.1 [⟨.number, "5"⟩] ⟨.ident, "M"⟩ [⟨.ident, "N"⟩] 5 ?_ ?_
      hlast, (fold_inlining csharp smallTable).2.2 ⟨.ident, "C"⟩ rfl (.single ?_)⟩
  · exact .next rfl rfl (.last rfl rfl)
  · rintro e he
    obtain rfl := Option.some.inj (hparse.symm.trans he)
    rfl
  · refine ⟨[⟨.ident, "C"⟩], rfl, fun e he => ?_⟩
    obtain rfl := Option.some.inj (hcycle.symm.trans he)
    exact ⟨"C", List.mem_cons_self, rfl⟩

end Language

end ZeroAlloc
