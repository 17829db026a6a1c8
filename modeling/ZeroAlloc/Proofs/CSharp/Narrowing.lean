import Mathlib.Tactic.Ring
import ZeroAlloc.Proofs.Decision.Evidence
import ZeroAlloc.Proofs.Fold
import ZeroAlloc.Proofs.SizeExpr.Names
set_option autoImplicit false

/-! # Narrowing casts in C#

Folding passes over casts, while a cast in an unchecked context brings its operand into the range of
its type. The two evaluations differ by a multiple of a power of two that the narrowest cast with an
effect gives, so they agree if no cast changes its operand. -/

namespace ZeroAlloc.CSharp

/-! ## Integral types -/

/-- An integral type of a fixed width. -/
structure IntegralType where
  signed : Bool
  bits : Nat
  deriving DecidableEq

namespace IntegralType

/-- The types that casts name. The native integers have no fixed width. -/
def named : List (String × Option IntegralType) := [
  ("sbyte", some ⟨true, 8⟩), ("byte", some ⟨false, 8⟩), ("short", some ⟨true, 16⟩),
  ("ushort", some ⟨false, 16⟩), ("int", some ⟨true, 32⟩), ("uint", some ⟨false, 32⟩),
  ("long", some ⟨true, 64⟩), ("ulong", some ⟨false, 64⟩), ("SByte", some ⟨true, 8⟩),
  ("Byte", some ⟨false, 8⟩), ("Int16", some ⟨true, 16⟩), ("UInt16", some ⟨false, 16⟩),
  ("Int32", some ⟨true, 32⟩), ("UInt32", some ⟨false, 32⟩), ("Int64", some ⟨true, 64⟩),
  ("UInt64", some ⟨false, 64⟩), ("nint", none), ("nuint", none), ("IntPtr", none),
  ("UIntPtr", none)]

theorem isSome_lookup_named : ∀ name ∈ integralTypes, (named.lookup name).isSome := by decide

/-- The integer in the range of the type to which a cast brings it: in two's complement if the type
is signed. -/
def reduce (t : IntegralType) (n : Int) : Int :=
  if t.signed then n.bmod (2 ^ t.bits) else n % 2 ^ t.bits

theorem dvd_reduce_sub (t : IntegralType) (n : Int) : (2 : Int) ^ t.bits ∣ t.reduce n - n := by
  unfold reduce
  split
  · refine ⟨-n.bdiv (2 ^ t.bits), ?_⟩
    rw [Int.bmod_eq_self_sub_mul_bdiv]
    push_cast
    ring
  · exact Int.dvd_emod_sub_self

example : reduce ⟨true, 8⟩ 200 = -56 ∧ reduce ⟨false, 8⟩ 256 = 0 := by decide

end IntegralType

/-- The type that a cast names: of a fixed width, or none if it is native. -/
def castType? (marks : List Lexeme) : Option (Option IntegralType) :=
  (dottedName? marks.tail).bind fun (name, _, _) => IntegralType.named.lookup name

/-- A dotted name ends where the next lexeme does not go on with it. -/
theorem dottedName?_take {ls more : List Lexeme} {name : String} {width : Nat} {next : Lexeme}
    (h : dottedName? ls = some (name, width, next :: more)) :
    dottedName? (ls.take (width + 1)) = some (name, width, [next]) := by
  fun_induction dottedName? ls generalizing name width with
  | case1 => cases h
  | case2 l hident => cases h
  | case3 l hident => cases h
  | case4 l dot ls hident => cases h
  | case5 l dot ls hident hdot ih =>
    obtain ⟨⟨last, w, rest⟩, hrest, he⟩ := Option.map_eq_some_iff.1 h
    cases he
    simp only [List.take_succ_cons, dottedName?, hident, hdot, ih hrest]
    rfl
  | case6 l dot ls hident hdot =>
    cases h
    simp [dottedName?, hident, hdot]

/-- Every cast names a type. -/
theorem isSome_castType?_take {ls : List Lexeme} {width : Nat}
    (h : castWidth? ls = some width) : (castType? (ls.take width)).isSome := by
  unfold castWidth? at h
  split at h
  · cases h
  · split at h
    · rename_i l ls hopen
      split at h
      · rename_i name w close operand more hname
        split at h
        · rename_i htype
          cases h
          rw [Bool.and_eq_true, List.contains_iff_mem] at htype
          rw [castType?, List.take_succ_cons, List.tail_cons, dottedName?_take hname]
          exact IntegralType.isSome_lookup_named name htype.1
        · cases h
      · cases h
    · cases h

/-! ## Evaluation with narrowing casts -/

/-- The value of an expression of which the casts narrow, and the types of the casts that changed
their operands. -/
structure Narrowed where
  value : Int
  lossy : List IntegralType

/-- The outcome of a cast to the type. One to a native integer changes nothing. -/
def Narrowed.cast (r : Narrowed) : Option IntegralType → Narrowed
  | none => r
  | some t => ⟨t.reduce r.value, if t.reduce r.value = r.value then r.lossy else t :: r.lossy⟩

/-- The outcome of an operation on two values. -/
def Narrowed.combine (op : Int → Int → Int) (r₁ r₂ : Narrowed) : Narrowed :=
  ⟨op r₁.value r₂.value, r₁.lossy ++ r₂.lossy⟩

/-- The value of an expression of which the casts narrow, given those of constants. A cast that
names no type has none. -/
def narrow? (value? : String → Option Narrowed) : SizeExpr → Option Narrowed
  | .literal text => (literal? text).map fun n => ⟨n, []⟩
  | .constant name => value? name
  | .negate e => (narrow? value? e).map fun r => ⟨-r.value, r.lossy⟩
  | .cast marks e => (castType? marks).bind fun type => (narrow? value? e).map (·.cast type)
  | .convert _ e => narrow? value? e
  | .add e₁ e₂ =>
    (narrow? value? e₁).bind fun r₁ => (narrow? value? e₂).map fun r₂ => .combine (· + ·) r₁ r₂
  | .subtract e₁ e₂ =>
    (narrow? value? e₁).bind fun r₁ => (narrow? value? e₂).map fun r₂ => .combine (· - ·) r₁ r₂
  | .multiply e₁ e₂ =>
    (narrow? value? e₁).bind fun r₁ => (narrow? value? e₂).map fun r₂ => .combine (· * ·) r₁ r₂

/-- The narrowed value of an expression whose names may lead through fewer than `levels`
definitions. -/
def narrowWithin (constants : Constants) : Nat → List Lexeme → Option Narrowed
  | 0, _ => none
  | levels + 1, ls =>
    (SizeExpr.parse? dialect ls).bind
      (narrow? fun name => (constants.get? name).bind (narrowWithin constants levels))

/-- The value of an expression with all its casts narrowing. -/
def narrowed? (constants : Constants) (ls : List Lexeme) : Option Narrowed :=
  narrowWithin constants (maxConstantDepth + 1) ls

/-! ## Narrowing and folding -/

namespace Narrowed

/-- The narrowed value differs from the exact one by a multiple of each power of two up to the least
width of a cast that changed its operand. -/
def Matches (r : Narrowed) (n : Int) : Prop :=
  ∀ w, (∀ t ∈ r.lossy, w ≤ t.bits) → (2 : Int) ^ w ∣ r.value - n

variable {r r₁ r₂ : Narrowed} {n n₁ n₂ : Int}

theorem Matches.negate (h : r.Matches n) : Matches ⟨-r.value, r.lossy⟩ (-n) := by
  intro w hw
  have : -r.value - -n = -(r.value - n) := by ring
  rw [this]
  exact Int.dvd_neg.2 (h w hw)

theorem Matches.cast (h : r.Matches n) (type : Option IntegralType) :
    (r.cast type).Matches n := by
  cases type with
  | none => exact h
  | some t =>
    intro w hw
    rw [Narrowed.cast] at hw ⊢
    split at hw
    · rename_i hsame
      rw [hsame]
      exact h w hw
    · rw [List.forall_mem_cons] at hw
      have hreduce := Int.dvd_trans (pow_dvd_pow (2 : Int) hw.1) (t.dvd_reduce_sub r.value)
      have : t.reduce r.value - n = t.reduce r.value - r.value + (r.value - n) := by ring
      rw [this]
      exact Int.dvd_add hreduce (h w hw.2)

/-- The operation turns congruent operands into congruent values, whatever the modulus is. -/
def Congruent (op : Int → Int → Int) : Prop :=
  ∀ {m x y x' y' : Int}, m ∣ x - x' → m ∣ y - y' → m ∣ op x y - op x' y'

theorem congruent_add : Congruent (· + ·) := by
  intro m x y x' y' hx hy
  rw [add_sub_add_comm]
  exact Int.dvd_add hx hy

theorem congruent_subtract : Congruent (· - ·) := by
  intro m x y x' y' hx hy
  rw [sub_sub_sub_comm]
  exact Int.dvd_sub hx hy

theorem congruent_multiply : Congruent (· * ·) := by
  intro m x y x' y' hx hy
  have : x * y - x' * y' = x * (y - y') + (x - x') * y' := by ring
  rw [this]
  exact Int.dvd_add (Int.dvd_mul_of_dvd_right hy) (Int.dvd_mul_of_dvd_left hx)

theorem Matches.combine {op : Int → Int → Int} (hop : Congruent op) (h₁ : r₁.Matches n₁)
    (h₂ : r₂.Matches n₂) : (Narrowed.combine op r₁ r₂).Matches (op n₁ n₂) := by
  intro w hw
  rw [Narrowed.combine, List.forall_mem_append] at hw
  exact hop (h₁ w hw.1) (h₂ w hw.2)

/-- Where two operands have narrowed values, so has the outcome of a bounded operation on them. -/
theorem exists_combine {op : Int → Int → Int} (hop : Congruent op) {value₁ value₂ : Option Int}
    {narrowed₁ narrowed₂ : Option Narrowed}
    (h₁ : ∀ {n}, value₁ = some n → ∃ r, narrowed₁ = some r ∧ r.Matches n)
    (h₂ : ∀ {n}, value₂ = some n → ∃ r, narrowed₂ = some r ∧ r.Matches n)
    (h : (value₁.bind fun n₁ => value₂.bind fun n₂ => Integer.bounded (op n₁ n₂)) = some n) :
    ∃ r, (narrowed₁.bind fun r₁ => narrowed₂.map fun r₂ => combine op r₁ r₂) = some r ∧
      r.Matches n := by
  obtain ⟨n₁, n₂, hn₁, hn₂, rfl, _⟩ := Integer.bind_bounded_eq_some_iff.1 h
  obtain ⟨r₁, rfl, hmatch₁⟩ := h₁ hn₁
  obtain ⟨r₂, rfl, hmatch₂⟩ := h₂ hn₂
  exact ⟨_, rfl, hmatch₁.combine hop hmatch₂⟩

/-- Without a cast that changed its operand the values are the same. -/
theorem Matches.eq_of_lossless (h : r.Matches n) (hlossy : r.lossy = []) : r.value = n := by
  have hdvd : (2 : Int) ^ (r.value - n).natAbs ∣ r.value - n := h _ (by simp [hlossy])
  -- a power of two beyond the difference divides it, as no width bounds the powers
  have hlt : (r.value - n).natAbs < ((2 : Int) ^ (r.value - n).natAbs).natAbs := by
    rw [Int.natAbs_pow]
    exact Nat.lt_two_pow_self
  have := Int.eq_zero_of_dvd_of_natAbs_lt_natAbs hdvd hlt
  omega

end Narrowed

/-- Whatever has a value has a narrowed one that matches it, if the names of constants do. -/
theorem exists_narrow?_of_eval? {value? : String → Option Int}
    {constant? : String → Option Narrowed}
    (hvalue : ∀ {name n}, value? name = some n → ∃ r, constant? name = some r ∧ r.Matches n)
    {e : SizeExpr} (hcasts : e.AllCasts fun marks => (castType? marks).isSome) {n : Int}
    (h : e.eval? dialect value? = some n) :
    ∃ r, narrow? constant? e = some r ∧ r.Matches n := by
  induction e generalizing n with
  | literal text =>
    have hliteral : literal? text = some n := h
    exact ⟨⟨n, []⟩, by rw [narrow?, hliteral]; rfl, fun w _ => by simp⟩
  | constant name => exact hvalue h
  | negate e ih =>
    obtain ⟨m, hm, hbounded⟩ := Option.bind_eq_some_iff.1 h
    obtain ⟨rfl, _⟩ := Integer.bounded_eq_some_iff.1 hbounded
    obtain ⟨r, hr, hmatch⟩ := ih hcasts hm
    exact ⟨_, by rw [narrow?, hr]; rfl, hmatch.negate⟩
  | cast marks e ih =>
    obtain ⟨type, htype⟩ := Option.isSome_iff_exists.1 hcasts.1
    obtain ⟨r, hr, hmatch⟩ := ih hcasts.2 h
    exact ⟨_, by rw [narrow?, htype, Option.bind_some, hr]; rfl, hmatch.cast type⟩
  | convert name e ih => exact ih hcasts h
  | add e₁ e₂ ih₁ ih₂ =>
    exact Narrowed.exists_combine Narrowed.congruent_add (ih₁ hcasts.1) (ih₂ hcasts.2) h
  | subtract e₁ e₂ ih₁ ih₂ =>
    exact Narrowed.exists_combine Narrowed.congruent_subtract (ih₁ hcasts.1) (ih₂ hcasts.2) h
  | multiply e₁ e₂ ih₁ ih₂ =>
    exact Narrowed.exists_combine Narrowed.congruent_multiply (ih₁ hcasts.1) (ih₂ hcasts.2) h

/-- The induction is on the levels of definitions that are left. -/
theorem exists_narrowWithin_of_foldWithin {constants : Constants} {levels : Nat}
    {ls : List Lexeme} {n : Int} (h : foldWithin dialect constants levels ls = some n) :
    ∃ r, narrowWithin constants levels ls = some r ∧ r.Matches n := by
  induction levels generalizing ls n with
  | zero => cases h
  | succ levels ih =>
    have hvalue : ∀ {name : String} {n : Int},
        ((constants.get? (dialect.canonicalName name)).bind
          (foldWithin dialect constants levels)) = some n →
        ∃ r, ((constants.get? name).bind (narrowWithin constants levels)) = some r ∧
          r.Matches n := by
      intro name n hname
      obtain ⟨definition, hget, hfold⟩ := Option.bind_eq_some_iff.1 hname
      obtain ⟨r, hr, hmatch⟩ := ih hfold
      exact ⟨r, Option.bind_eq_some_iff.2 ⟨definition, hget, hr⟩, hmatch⟩
    obtain ⟨e, hparse, heval⟩ := Option.bind_eq_some_iff.1 h
    have hspells := (SizeExpr.parse?_eq_some_iff castsInBrackets).1 hparse
    obtain ⟨r, hr, hmatch⟩ :=
      exists_narrow?_of_eval? hvalue (hspells.allCasts isSome_castType?_take) heval
    exact ⟨r, by rw [narrowWithin, hparse]; exact hr, hmatch⟩

/-- The narrowed value of the size is a multiple of each power of two up to the least width of a
cast that changed its operand. If no cast did, it is zero. -/
def NarrowsToZero (constants : Constants) (size : List Lexeme) : Prop :=
  ∃ r, narrowed? constants size = some r ∧
    (∀ w, (∀ t ∈ r.lossy, w ≤ t.bits) → (2 : Int) ^ w ∣ r.value) ∧
    (r.lossy = [] → r.value = 0)

/-- A size that counts as zero is zero up to what its casts change, and so is the size of each site
whose length counts as the constant zero. -/
theorem narrowsToZero_of_length?_eq_zero (constants : Constants) :
    (∀ size, length? constants size = some 0 → NarrowsToZero constants size) ∧
      ∀ s : Site, s.evidence .csharp constants = .constantZero →
        ∃ size, s.allocated.sizes.head? = some (some size) ∧ NarrowsToZero constants size := by
  have hsize : ∀ size, length? constants size = some 0 → NarrowsToZero constants size := by
    intro size h
    obtain ⟨r, hr, hmatch⟩ := exists_narrowWithin_of_foldWithin (Option.filter_eq_some_iff.1 h).1
    exact ⟨r, hr, fun w hw => by simpa using hmatch w hw, hmatch.eq_of_lossless⟩
  refine ⟨hsize, fun s h => ?_⟩
  obtain ⟨size, hhead, hzero⟩ := Site.exists_size_of_evidence h
  exact ⟨size, hhead, hsize size hzero⟩

/-! ## A cast with an effect -/

/-- The lexemes of `unchecked(256 - (byte)256)`. -/
def wrappedSize : List Lexeme := [
  ⟨.ident, "unchecked"⟩, ⟨.punct, "("⟩, ⟨.number, "256"⟩, ⟨.punct, "-"⟩, ⟨.punct, "("⟩,
  ⟨.ident, "byte"⟩, ⟨.punct, ")"⟩, ⟨.number, "256"⟩, ⟨.punct, ")"⟩]

/-- The expression that they spell. -/
def wrappedExpr : SizeExpr :=
  .convert "unchecked" (.subtract (.literal "256")
    (.cast [⟨.punct, "("⟩, ⟨.ident, "byte"⟩, ⟨.punct, ")"⟩] (.literal "256")))

open SizeExpr in
theorem spells_wrappedSize : Spells dialect .sum wrappedSize wrappedExpr [] := by
  have hliteral (rest : List Lexeme) :
      Spells dialect .operand (⟨.number, "256"⟩ :: rest) (.literal "256") rest :=
    .ofPrimary rfl (.literal rfl)
  have hminuend := Spells.ofProduct (.ofOperand (hliteral (wrappedSize.drop 3)))
  have hwidth : dialect.castWidth? (wrappedSize.drop 4) = some 3 := rfl
  have hsubtrahend := Spells.cast hwidth (hliteral [⟨.punct, ")"⟩])
  have hinside := Spells.subtract hminuend rfl (.ofOperand hsubtrahend)
  exact .ofProduct (.ofOperand (.ofPrimary rfl (.convert rfl rfl rfl hinside (.closed rfl))))

theorem length?_wrappedSize : length? [] wrappedSize = some 0 := by
  have hliteral : dialect.literal? "256" = some 256 := by decide
  have h256 : SizeExpr.HasValue dialect [] 0 (.literal "256") 256 :=
    .literal hliteral (literalsRepresented hliteral)
  have hzero : SizeExpr.HasValue dialect [] 0 wrappedExpr (256 - 256) :=
    .convert (.subtract h256 (.cast h256) (by decide))
  have hfold : fold dialect [] wrappedSize = some 0 :=
    (fold_eq_some castsInBrackets literalsRepresented).2 ⟨_, spells_wrappedSize, hzero⟩
  rw [length?, hfold]
  rfl

/-- The cast gives zero, so nothing is taken off. -/
theorem narrowed?_wrappedSize : narrowed? [] wrappedSize = some ⟨256, [⟨false, 8⟩]⟩ := by
  have hparse := (SizeExpr.parse?_eq_some_iff castsInBrackets).2 spells_wrappedSize
  have hliteral : literal? "256" = some 256 := by decide
  rw [narrowed?, narrowWithin, hparse, Option.bind_some, wrappedExpr]
  simp only [narrow?, hliteral]
  rfl

/-- A size that folds to zero need not be zero once its casts narrow. -/
theorem exists_narrowed?_ne_zero :
    ¬∀ (constants : Constants) (size : List Lexeme), length? constants size = some 0 →
      ∃ r, narrowed? constants size = some r ∧ r.value = 0 := by
  intro hclaim
  obtain ⟨r, hr, hzero⟩ := hclaim [] wrappedSize length?_wrappedSize
  rw [narrowed?_wrappedSize] at hr
  cases hr
  cases hzero

/-- The narrowed value is a multiple of two to the power of the width of the cast. -/
theorem narrowsToZero_wrappedSize :
    length? [] wrappedSize = some 0 ∧ NarrowsToZero [] wrappedSize :=
  ⟨length?_wrappedSize, (narrowsToZero_of_length?_eq_zero []).1 _ length?_wrappedSize⟩

end ZeroAlloc.CSharp
