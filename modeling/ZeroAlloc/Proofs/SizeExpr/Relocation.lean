import ZeroAlloc.Proofs.Fold
import ZeroAlloc.Proofs.SizeExpr.Names
set_option autoImplicit false

/-! # Expressions in other places and other dialects

What an expression is read as depends on what follows it: in brackets, the name of a type is a cast
as soon as an operand stands behind it. An expression without such names is the same expression in
front of everything but an opening bracket (`Spells.relocate`). A row without any names is the same
expression in all dialects that agree on its literals, and has one value (`foldWithin_congr`). -/

namespace ZeroAlloc

/-- The dialect sees a cast by its marks, whatever the operand behind them, and the marks are a
bracket around the name of one of the types, or around a longer path. -/
structure Dialect.CastsNameTypes (d : Dialect) (types : List String) : Prop where
  sameMarks : ∀ {ls width}, d.castWidth? ls = some width →
    ∀ l more, d.castWidth? (ls.take width ++ l :: more) = some width
  named : ∀ {opening ls width}, d.castWidth? (opening :: ls) = some width →
    ∃ name next more, ls = name :: next :: more ∧ name.isIdent = true ∧
      (next.isPunct "." = true ∨ next.isPunct ")" = true ∧ name.text ∈ types)

namespace SizeExpr

variable {d : Dialect} {types : List String} {e : SizeExpr} {ls rest : List Lexeme}

theorem isPunct_eq_false_of_isIdent {l : Lexeme} (h : l.isIdent = true) (p : String) :
    l.isPunct p = false :=
  isPunct_eq_false_of_kind p (by simp [kind_of_isIdent h])

theorem castWidth?_eq_none_of_startsWithPunct (hd : d.CastsInBrackets)
    (h : startsWithPunct "(" ls = false) :
    d.castWidth? ls = none := by
  cases hcast : d.castWidth? ls with
  | none => rfl
  | some width =>
    rw [hd.startsWith hcast] at h
    cases h

/-! ## Names and numbers -/

/-- A name alone is an expression. -/
theorem Spells.name (hd : d.CastsInBrackets) {name : Lexeme} (hname : name.isIdent = true) :
    Spells d .sum [name] (.constant name.text) [] :=
  .ofProduct <| .ofOperand <| .ofPrimary
    (castWidth?_eq_none_of_startsWithPunct hd (isPunct_eq_false_of_isIdent hname "("))
    (.constant hname rfl)

/-- A number is an operand, whatever follows it. -/
theorem Spells.number (hd : d.CastsInBrackets) {number : Lexeme} (hnumber : number.kind = .number)
    (rest : List Lexeme) : Spells d .operand (number :: rest) (.literal number.text) rest :=
  .ofPrimary (castWidth?_eq_none_of_startsWithPunct hd
    (isPunct_eq_false_of_kind "(" (by simp [hnumber]))) (.literal hnumber)

/-- A number alone is worth what its text is. -/
theorem fold_number (hd : d.CastsInBrackets) (hliterals : d.LiteralsRepresented)
    (constants : Constants) {number : Lexeme} (hnumber : number.kind = .number) {n : Int}
    (hn : d.literal? number.text = some n) : fold d constants [number] = some n :=
  (fold_eq_some hd hliterals).2
    ⟨_, .ofProduct (.ofOperand (.number hd hnumber [])), .literal hn (hliterals hn)⟩

/-! ## Rests -/

/-- What the row behind a name shows: an opening bracket if the name is a conversion, and otherwise,
with the name among those of the expression, an operator or the end of the expression. -/
def FollowsName (name : Lexeme) (more : List Lexeme) (e : SizeExpr) (rest : List Lexeme) : Prop :=
  startsWithPunct "(" more = true ∨ name.text ∈ e.names ∧
    (rest = more ∨ ∃ sign ∈ ["+", "-", "*"], startsWithPunct sign more = true)

/-- An operator may stand behind the expression, which is then the first part of another one. -/
theorem FollowsName.operator {name l : Lexeme} {more mid : List Lexeme} {e₁ : SizeExpr}
    {sign : String} (h : FollowsName name more e₁ (l :: mid)) (hl : l.isPunct sign = true)
    (hsign : sign ∈ ["+", "-", "*"]) (hnames : e₁.names ⊆ e.names) :
    FollowsName name more e rest := by
  rcases h with hopen | ⟨hmem, rfl | hmore⟩
  · exact .inl hopen
  · exact .inr ⟨hnames hmem, .inr ⟨sign, hsign, hl⟩⟩
  · exact .inr ⟨hnames hmem, .inr hmore⟩

/-- What a conversion passes over behind its argument does not depend on what follows it. -/
theorem EndsConversion.exists_passed (h : EndsConversion ls rest) :
    ∃ passed, ls = passed ++ rest ∧ EndsConversion passed [] := by
  cases h with
  | @closed close _ hclose => exact ⟨[close], rfl, .closed hclose⟩
  | @further comma close inside _ hcomma hinside hclose =>
    exact ⟨comma :: (inside ++ [close]), by simp, .further hcomma hinside hclose⟩

theorem EndsConversion.append {passed : List Lexeme} (h : EndsConversion passed [])
    (rest : List Lexeme) : EndsConversion (passed ++ rest) rest := by
  cases h with
  | closed hclose => exact .closed hclose
  | further hcomma hinside hclose =>
    rw [List.cons_append, List.append_assoc]
    exact .further hcomma hinside hclose

theorem EndsConversion.startsWithPunct_append {passed : List Lexeme}
    (h : EndsConversion passed []) (rest : List Lexeme) :
    startsWithPunct "(" (passed ++ rest) = false := by
  cases h with
  | closed hclose => exact isPunct_eq_decide "(" hclose
  | further hcomma => exact isPunct_eq_decide "(" hcomma

namespace Spells

variable {category : Category}

theorem ne_nil (h : Spells d category ls e rest) : ls ≠ [] := by
  induction h with
  | ofProduct _ ih => exact ih
  | add _ _ _ ih _ => exact ih
  | subtract _ _ _ ih _ => exact ih
  | ofOperand _ ih => exact ih
  | multiply _ _ _ ih _ => exact ih
  | negate | plus | literal | group | convert | constant => exact List.cons_ne_nil _ _
  | cast _ _ ih =>
    rintro rfl
    exact ih List.drop_nil
  | ofPrimary _ _ ih => exact ih

/-- What stands behind a name that an expression starts with. -/
theorem followsName (hd : d.CastsInBrackets) {name : Lexeme} {more : List Lexeme}
    (hname : name.isIdent = true) (h : Spells d category (name :: more) e rest) :
    FollowsName name more e rest := by
  generalize hls : name :: more = ls at h
  have notPunct {l : Lexeme} {p : String} {ls : List Lexeme} (hl : l.isPunct p = true) :
      name :: more ≠ l :: ls := by
    intro heq
    obtain rfl : name = l := (List.cons.inj heq).1
    rw [isPunct_eq_false_of_isIdent hname] at hl
    cases hl
  induction h with
  | ofProduct _ ih => exact ih hls
  | add _ hplus _ ih _ =>
    exact (ih hls).operator hplus (by simp) (List.subset_append_left _ _)
  | subtract _ hminus _ ih _ =>
    exact (ih hls).operator hminus (by simp) (List.subset_append_left _ _)
  | ofOperand _ ih => exact ih hls
  | multiply _ htimes _ ih _ =>
    exact (ih hls).operator htimes (by simp) (List.subset_append_left _ _)
  | negate hminus _ _ => exact absurd hls (notPunct hminus)
  | plus hplus _ _ => exact absurd hls (notPunct hplus)
  | cast hcast _ _ =>
    have hopen := hd.startsWith hcast
    rw [← hls, startsWithPunct_cons, isPunct_eq_false_of_isIdent hname] at hopen
    cases hopen
  | ofPrimary _ _ ih => exact ih hls
  | literal hnumber =>
    obtain rfl := (List.cons.inj hls).1
    rw [kind_of_isIdent hname] at hnumber
    cases hnumber
  | group hopen _ _ _ => exact absurd hls (notPunct hopen)
  | convert _ _ hopen _ _ _ =>
    obtain rfl := (List.cons.inj hls).2
    exact .inl hopen
  | constant _ _ =>
    obtain ⟨rfl, rfl⟩ := List.cons.inj hls
    exact .inr ⟨List.mem_cons_self, .inl rfl⟩

/-- An expression in brackets is no cast if none of its names is that of a type. -/
theorem castWidth?_eq_none (hd : d.CastsInBrackets) (htypes : d.CastsNameTypes types)
    (h : Spells d .sum ls e rest) (hnames : ∀ name ∈ e.names, name ∉ types)
    (hclose : startsWithPunct ")" rest = true) (opening : Lexeme) :
    d.castWidth? (opening :: ls) = none := by
  cases hcast : d.castWidth? (opening :: ls) with
  | none => rfl
  | some width =>
    exfalso
    obtain ⟨name, next, more, rfl, hname, hnext⟩ := htypes.named hcast
    have behind := h.followsName hd hname
    rcases hnext with hdot | ⟨hend, htype⟩
    · -- no operator and no closing bracket is a dot
      rcases behind with hopen | ⟨-, rfl | ⟨sign, hsign, hnext⟩⟩
      · rw [startsWithPunct_cons, isPunct_eq_decide "(" hdot] at hopen
        exact absurd hopen (by decide)
      · rw [startsWithPunct_cons, isPunct_eq_decide ")" hdot] at hclose
        exact absurd hclose (by decide)
      · rw [startsWithPunct_cons, isPunct_eq_decide sign hdot] at hnext
        obtain rfl := of_decide_eq_true hnext
        exact absurd hsign (by decide)
    · rcases behind with hopen | ⟨hmem, -⟩
      · rw [startsWithPunct_cons, isPunct_eq_decide "(" hend] at hopen
        exact absurd hopen (by decide)
      · exact hnames _ hmem htype

/-- A primary expression that names no type is an operand: it does not start with a cast. -/
theorem ofPrimary_of_names (hd : d.CastsInBrackets) (htypes : d.CastsNameTypes types)
    (h : Spells d .primary ls e rest) (hnames : ∀ name ∈ e.names, name ∉ types) :
    Spells d .operand ls e rest := by
  refine .ofPrimary ?_ h
  cases h with
  | literal hnumber =>
    refine castWidth?_eq_none_of_startsWithPunct hd ?_
    rw [startsWithPunct_cons, isPunct_eq_false_of_kind _ (by simp [hnumber])]
  | group _ hinside hclose => exact hinside.castWidth?_eq_none hd htypes hnames hclose _
  | convert hname | constant hname =>
    exact castWidth?_eq_none_of_startsWithPunct hd (isPunct_eq_false_of_isIdent hname "(")

/-- A cast keeps its marks in front of another operand. -/
theorem cast_append (htypes : d.CastsNameTypes types) {width : Nat}
    (hcast : d.castWidth? ls = some width) (hne : ls.drop width ≠ []) {more : List Lexeme}
    (h : Spells d .operand more e rest) :
    Spells d .operand (ls.take width ++ more) (.cast (ls.take width) e) rest := by
  have hwidth : width < ls.length := by
    rwa [Ne, List.drop_eq_nil_iff, Nat.not_le] at hne
  have hlength : (ls.take width).length = width := List.length_take_of_le (Nat.le_of_lt hwidth)
  have hmore : d.castWidth? (ls.take width ++ more) = some width := by
    obtain ⟨l, more, rfl⟩ := List.exists_cons_of_ne_nil h.ne_nil
    exact htypes.sameMarks hcast l more
  have hoperand := Spells.cast hmore (by rwa [List.drop_left' hlength])
  rwa [List.take_left' hlength] at hoperand

/-- The row shows the expression and then the rest, and shows it as well in front of every row that
does not start with an opening bracket. -/
def Relocates (d : Dialect) (category : Category) (ls : List Lexeme) (e : SizeExpr)
    (rest : List Lexeme) : Prop :=
  ∃ row, ls = row ++ rest ∧ ∀ rest', startsWithPunct "(" rest' = false →
    Spells d category (row ++ rest') e rest'

namespace Relocates

variable {inner left right : Category} {mid : List Lexeme} {e' e₁ e₂ : SizeExpr} {sign : Lexeme}

/-- What stands around an operand moves with it. -/
theorem between (front passed : List Lexeme) (h : Relocates d inner ls e (passed ++ rest))
    (hpassed : ∀ rest', startsWithPunct "(" rest' = false →
      startsWithPunct "(" (passed ++ rest') = false)
    (hspells : ∀ {more rest'}, Spells d inner more e (passed ++ rest') →
      Spells d category (front ++ more) e' rest') :
    Relocates d category (front ++ ls) e' rest := by
  obtain ⟨row, rfl, hrow⟩ := h
  refine ⟨front ++ (row ++ passed), by simp, fun rest' hrest => ?_⟩
  rw [List.append_assoc, List.append_assoc]
  exact hspells (hrow _ (hpassed rest' hrest))

theorem behind (front : List Lexeme) (h : Relocates d inner ls e rest)
    (hspells : ∀ {more rest'}, Spells d inner more e rest' →
      Spells d category (front ++ more) e' rest') :
    Relocates d category (front ++ ls) e' rest :=
  between front [] h (fun _ hrest => hrest) hspells

/-- Two operands move with the operator between them. -/
theorem binary (h₁ : Relocates d left ls e₁ (sign :: mid)) (hsign : sign.isPunct "(" = false)
    (h₂ : Relocates d right mid e₂ rest)
    (hspells : ∀ {ls mid rest'}, Spells d left ls e₁ (sign :: mid) → Spells d right mid e₂ rest' →
      Spells d category ls e rest') :
    Relocates d category ls e rest := by
  obtain ⟨row₁, rfl, hrow₁⟩ := h₁
  obtain ⟨row₂, rfl, hrow₂⟩ := h₂
  refine ⟨row₁ ++ sign :: row₂, by simp, fun rest' hrest => ?_⟩
  rw [List.append_assoc, List.cons_append]
  exact hspells (hrow₁ _ hsign) (hrow₂ rest' hrest)

end Relocates

/-- An expression that names no type is the same expression in front of every row that does not
start with an opening bracket. -/
theorem relocate (hd : d.CastsInBrackets) (htypes : d.CastsNameTypes types)
    (h : Spells d category ls e rest) (hnames : ∀ name ∈ e.names, name ∉ types) :
    Relocates d category ls e rest := by
  induction h with
  | ofProduct _ ih => exact .behind [] (ih hnames) .ofProduct
  | add _ hplus _ ih₁ ih₂ =>
    obtain ⟨hnames₁, hnames₂⟩ := List.forall_mem_append.1 hnames
    exact (ih₁ hnames₁).binary (isPunct_eq_decide "(" hplus) (ih₂ hnames₂) (.add · hplus ·)
  | subtract _ hminus _ ih₁ ih₂ =>
    obtain ⟨hnames₁, hnames₂⟩ := List.forall_mem_append.1 hnames
    exact (ih₁ hnames₁).binary (isPunct_eq_decide "(" hminus) (ih₂ hnames₂) (.subtract · hminus ·)
  | ofOperand _ ih => exact .behind [] (ih hnames) .ofOperand
  | multiply _ htimes _ ih₁ ih₂ =>
    obtain ⟨hnames₁, hnames₂⟩ := List.forall_mem_append.1 hnames
    exact (ih₁ hnames₁).binary (isPunct_eq_decide "(" htimes) (ih₂ hnames₂) (.multiply · htimes ·)
  | @negate _ _ minus _ hminus _ ih => exact .behind [minus] (ih hnames) (.negate hminus)
  | @plus _ _ plus _ hplus _ ih => exact .behind [plus] (ih hnames) (.plus hplus)
  | @cast ls _ width _ hcast hoperand ih =>
    have hmarks := (ih hnames).behind (ls.take width) (cast_append htypes hcast hoperand.ne_nil)
    rwa [List.take_append_drop] at hmarks
  | ofPrimary _ _ ih =>
    exact .behind [] (ih hnames) fun h => ofPrimary_of_names hd htypes h hnames
  | @literal number _ hnumber => exact ⟨[number], rfl, fun rest' _ => .literal hnumber⟩
  | @group opening close _ _ _ hopen _ hclose ih =>
    exact .between [opening] [close] (ih hnames) (fun _ _ => isPunct_eq_decide "(" hclose)
      (.group hopen · hclose)
  | @convert name opening _ _ _ _ hname hconversion hopen _ hend ih =>
    obtain ⟨passed, rfl, hpassed⟩ := hend.exists_passed
    exact .between [name, opening] passed (ih hnames) (fun _ _ => hpassed.startsWithPunct_append _)
      fun h => .convert hname hconversion hopen h (hpassed.append _)
  | @constant name rest hname hconversion =>
    refine ⟨[name], rfl, fun rest' h => .constant hname ?_⟩
    change (startsWithPunct "(" rest' && _) = false
    rw [h, Bool.false_and]

end Spells

/-! ## Rows that two dialects read alike -/

variable {other : Dialect} {otherTypes : List String}

/-- A row without names does not start with a cast. -/
theorem castWidth?_eq_none_of_forall (hcasts : d.CastsInBrackets)
    (htypes : d.CastsNameTypes types) {ls : List Lexeme} (hls : ∀ l ∈ ls, l.isIdent = false) :
    d.castWidth? ls = none := by
  cases hcast : d.castWidth? ls with
  | none => rfl
  | some width =>
    cases ls with
    | nil => cases hcasts.startsWith hcast
    | cons opening ls =>
      obtain ⟨name, next, more, rfl, hname, -⟩ := htypes.named hcast
      rw [hls name (by simp)] at hname
      cases hname

/-- Both dialects read the lexeme alike: it is no name, and a literal has one value. -/
def ReadAlike (d other : Dialect) (l : Lexeme) : Prop :=
  l.isIdent = false ∧ (l.kind = .number → d.literal? l.text = other.literal? l.text)

/-- An expression of lexemes that are read alike is the same one in both dialects, and it has the
same value, which takes no constants. -/
theorem Spells.transfer (hcasts : d.CastsInBrackets) (htypes : d.CastsNameTypes types)
    (hcasts' : other.CastsInBrackets) (htypes' : other.CastsNameTypes otherTypes)
    {category : Category} {ls rest : List Lexeme} {e : SizeExpr}
    (h : Spells d category ls e rest) (hls : ∀ l ∈ ls, ReadAlike d other l) :
    Spells other category ls e rest ∧
      ∀ value? otherValue?, e.eval? d value? = e.eval? other otherValue? := by
  have noNames {ls : List Lexeme} (hls : ∀ l ∈ ls, ReadAlike d other l) :
      ∀ l ∈ ls, l.isIdent = false := fun l hl => (hls l hl).1
  have behind {ls mid : List Lexeme} {l : Lexeme} {e₁ : SizeExpr} {category : Category}
      (hls : ∀ l ∈ ls, ReadAlike d other l) (h₁ : Spells d category ls e₁ (l :: mid)) :
      ∀ l ∈ mid, ReadAlike d other l :=
    fun l hl => hls l (h₁.suffix.subset (List.mem_cons_of_mem _ hl))
  induction h with
  | ofProduct _ ih =>
    obtain ⟨hspells, heval⟩ := ih hls
    exact ⟨.ofProduct hspells, heval⟩
  | add h₁ hplus _ ih₁ ih₂ =>
    obtain ⟨hspells₁, heval₁⟩ := ih₁ hls
    obtain ⟨hspells₂, heval₂⟩ := ih₂ (behind hls h₁)
    refine ⟨.add hspells₁ hplus hspells₂, fun value? otherValue? => ?_⟩
    rw [eval?, eval?, heval₁ value? otherValue?, heval₂ value? otherValue?]
  | subtract h₁ hminus _ ih₁ ih₂ =>
    obtain ⟨hspells₁, heval₁⟩ := ih₁ hls
    obtain ⟨hspells₂, heval₂⟩ := ih₂ (behind hls h₁)
    refine ⟨.subtract hspells₁ hminus hspells₂, fun value? otherValue? => ?_⟩
    rw [eval?, eval?, heval₁ value? otherValue?, heval₂ value? otherValue?]
  | ofOperand _ ih =>
    obtain ⟨hspells, heval⟩ := ih hls
    exact ⟨.ofOperand hspells, heval⟩
  | multiply h₁ htimes _ ih₁ ih₂ =>
    obtain ⟨hspells₁, heval₁⟩ := ih₁ hls
    obtain ⟨hspells₂, heval₂⟩ := ih₂ (behind hls h₁)
    refine ⟨.multiply hspells₁ htimes hspells₂, fun value? otherValue? => ?_⟩
    rw [eval?, eval?, heval₁ value? otherValue?, heval₂ value? otherValue?]
  | negate hminus _ ih =>
    obtain ⟨hspells, heval⟩ := ih (List.forall_mem_cons.1 hls).2
    refine ⟨.negate hminus hspells, fun value? otherValue? => ?_⟩
    rw [eval?, eval?, heval value? otherValue?]
  | plus hplus _ ih =>
    obtain ⟨hspells, heval⟩ := ih (List.forall_mem_cons.1 hls).2
    exact ⟨.plus hplus hspells, heval⟩
  | cast hcast _ _ =>
    rw [castWidth?_eq_none_of_forall hcasts htypes (noNames hls)] at hcast
    cases hcast
  | ofPrimary _ _ ih =>
    obtain ⟨hspells, heval⟩ := ih hls
    exact ⟨.ofPrimary (castWidth?_eq_none_of_forall hcasts' htypes' (noNames hls)) hspells, heval⟩
  | literal hnumber =>
    exact ⟨.literal hnumber, fun _ _ => (hls _ List.mem_cons_self).2 hnumber⟩
  | group hopen _ hclose ih =>
    obtain ⟨hspells, heval⟩ := ih (List.forall_mem_cons.1 hls).2
    exact ⟨.group hopen hspells hclose, heval⟩
  | convert hname | constant hname =>
    rw [(hls _ List.mem_cons_self).1] at hname
    cases hname

/-- A row of lexemes that are read alike has the same value in both dialects, whatever constants
there are. -/
theorem foldWithin_congr (hcasts : d.CastsInBrackets) (htypes : d.CastsNameTypes types)
    (hcasts' : other.CastsInBrackets) (htypes' : other.CastsNameTypes otherTypes)
    {ls : List Lexeme} (hls : ∀ l ∈ ls, ReadAlike d other l) (constants otherConstants : Constants)
    (levels : Nat) :
    foldWithin d constants (levels + 1) ls = foldWithin other otherConstants (levels + 1) ls := by
  have hls' : ∀ l ∈ ls, ReadAlike other d l := fun l hl =>
    ⟨(hls l hl).1, fun hnumber => ((hls l hl).2 hnumber).symm⟩
  have hparse : parse? d ls = parse? other ls := by
    refine Option.ext fun e => ?_
    rw [parse?_eq_some_iff hcasts, parse?_eq_some_iff hcasts']
    exact ⟨fun h => (h.transfer hcasts htypes hcasts' htypes' hls).1,
      fun h => (h.transfer hcasts' htypes' hcasts htypes hls').1⟩
  rw [foldWithin, foldWithin, hparse]
  cases hother : parse? other ls with
  | none => rfl
  | some e =>
    have hspells := (parse?_eq_some_iff hcasts').1 hother
    exact ((hspells.transfer hcasts' htypes' hcasts htypes hls').2 _ _).symm

end SizeExpr

end ZeroAlloc
