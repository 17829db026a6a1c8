import Mathlib.Algebra.Group.Nat.Defs
import ZeroAlloc.Integer
import ZeroAlloc.Proofs.Text.Case
set_option autoImplicit false

/-! # Numerals

A row of characters is read as the number whose digits it shows, and as no other
(`ofDigits?_eq_some_iff`). The digits are those that writing the number gives, so that what is read
is stated without the reader. -/

namespace ZeroAlloc.Integer

/-- The row shows the number in the radix: its digits behind any zeros, in any case and with any
separators. -/
def IsNumeral (radix : Nat) (cs : List Char) (n : Nat) : Prop :=
  ∃ zeros, (cs.filter (· ≠ '_')).map Char.toLower =
    List.replicate zeros '0' ++ Nat.toDigits radix n

/-- No sign stands in front of the first digit. -/
def IsUnsigned (cs : List Char) : Prop :=
  ∀ c ∈ (cs.filter (· ≠ '_')).head?, c ≠ '+' ∧ c ≠ '-'

theorem filter_map_toLower (cs : List Char) :
    (cs.map Char.toLower).filter (· ≠ '_') = (cs.filter (· ≠ '_')).map Char.toLower := by
  have hseparator (c : Char) : c.toLower = '_' ↔ c = '_' := Text.toLower_eq_iff rfl
  simp [List.filter_map, Function.comp_def, hseparator]

/-- Both forms of a row show the same numbers. -/
theorem isNumeral_map_toLower {radix : Nat} {cs : List Char} {n : Nat} :
    IsNumeral radix (cs.map Char.toLower) n ↔ IsNumeral radix cs n := by
  rw [IsNumeral, IsNumeral, filter_map_toLower, List.map_map]
  simp only [Function.comp_def, Text.toLower_toLower]

theorem isUnsigned_map_toLower {cs : List Char} :
    IsUnsigned (cs.map Char.toLower) ↔ IsUnsigned cs := by
  have hsign (c : Char) : c.toLower ≠ '+' ∧ c.toLower ≠ '-' ↔ c ≠ '+' ∧ c ≠ '-' :=
    and_congr (not_congr (Text.toLower_eq_iff rfl)) (not_congr (Text.toLower_eq_iff rfl))
  rw [IsUnsigned, IsUnsigned, filter_map_toLower]
  cases cs.filter (· ≠ '_') with
  | nil => simp
  | cons c cs => simpa using hsign c

/-- What stands behind the first digit is no matter. -/
theorem IsUnsigned.of_append {cs more : List Char} (h : IsUnsigned (cs ++ more)) :
    IsUnsigned cs := by
  intro c hc
  refine h c ?_
  rw [List.filter_append, List.head?_append, hc]
  rfl

/-! ## Digits -/

theorem toNat_digitChar_of_ten_le {d : Nat} (hten : 10 ≤ d) (hd : d < 16) :
    d.digitChar.toNat = 87 + d := by
  have hletters : ∀ d < 16, 10 ≤ d → d.digitChar.toNat = 87 + d := by decide
  exact hletters d hd hten

theorem isDigit_iff (c : Char) : c.isDigit = true ↔ 48 ≤ c.toNat ∧ c.toNat ≤ 57 :=
  Bool.and_eq_true_iff.trans (and_congr (decide_eq_true_iff (p := c.val ≥ '0'.val))
    (decide_eq_true_iff (p := c.val ≤ '9'.val)))

theorem ne_of_isDigit {c other : Char} (hc : c.isDigit = true) (hother : other.isDigit = false) :
    c ≠ other := by
  rintro rfl
  rw [hc] at hother
  cases hother

/-- A character is a digit if its lower-case form is how the digit is written. -/
theorem digit?_eq_some_iff {radix : Nat} (hradix : radix ≤ 16) {c : Char} {d : Nat} :
    digit? radix c = some d ↔ d < radix ∧ c.toLower = d.digitChar := by
  have hletter : ('a' ≤ c.toLower && c.toLower ≤ 'z') = true ↔
      97 ≤ c.toLower.toNat ∧ c.toLower.toNat ≤ 122 :=
    Bool.and_eq_true_iff.trans (and_congr (decide_eq_true_iff (p := 'a'.val ≤ c.toLower.val))
      (decide_eq_true_iff (p := c.toLower.val ≤ 'z'.val)))
  have hlower := Text.toNat_toLower c
  have hzero : '0'.toNat = 48 := rfl
  have ha : 'a'.toNat = 97 := rfl
  constructor
  · intro h
    simp only [digit?, Option.ite_none_right_eq_some, Option.some.injEq] at h
    obtain ⟨hlt, rfl⟩ := h
    refine ⟨hlt, Char.toNat_inj.1 ?_⟩
    by_cases hdigit : c.isDigit = true
    · have hrange := (isDigit_iff c).1 hdigit
      rw [if_pos hdigit, hzero, Nat.toNat_digitChar_of_lt_ten (by omega), hlower, if_neg (by omega)]
      omega
    · rw [if_neg hdigit] at hlt ⊢
      by_cases hrange : 97 ≤ c.toLower.toNat ∧ c.toLower.toNat ≤ 122
      · rw [if_pos (hletter.2 hrange)] at hlt ⊢
        rw [toNat_digitChar_of_ten_le (by omega) (by omega)]
        omega
      · rw [if_neg (mt hletter.1 hrange)] at hlt
        omega
  · rintro ⟨hlt, hc⟩
    have htoNat : c.toLower.toNat = d.digitChar.toNat := congrArg Char.toNat hc
    simp only [digit?, Option.ite_none_right_eq_some, Option.some.injEq]
    by_cases hten : d < 10
    · rw [Nat.toNat_digitChar_of_lt_ten hten] at htoNat
      -- a letter in upper case would have a greater lower-case form
      have hvalue : c.toNat = 48 + d := by split at hlower <;> omega
      rw [if_pos ((isDigit_iff c).2 (by omega))]
      omega
    · rw [toNat_digitChar_of_ten_le (by omega) (by omega)] at htoNat
      have hdigit : ¬ c.isDigit = true := by
        rw [isDigit_iff]
        split at hlower <;> omega
      rw [if_neg hdigit, if_pos (hletter.2 (by omega))]
      omega

/-- The digits of a number are below the radix. -/
theorem exists_of_mem_toDigits {radix : Nat} (hradix : 1 < radix) {n : Nat} {c : Char}
    (h : c ∈ Nat.toDigits radix n) : ∃ d < radix, c = d.digitChar := by
  induction n using Nat.strongRecOn with
  | ind n ih =>
    rcases Nat.lt_or_ge n radix with hlt | hge
    · rw [Nat.toDigits_of_lt_base hlt, List.mem_singleton] at h
      exact ⟨n, hlt, h⟩
    · rw [Nat.toDigits_of_base_le hradix hge, List.mem_append, List.mem_singleton] at h
      rcases h with h | h
      · exact ih _ (Nat.div_lt_self (by omega) hradix) h
      · exact ⟨n % radix, Nat.mod_lt _ (by omega), h⟩

/-! ## Rows of digits -/

variable {radix : Nat}

theorem digitsFrom?_append (value : Nat) (cs more : List Char) :
    digitsFrom? radix value (cs ++ more) =
      (digitsFrom? radix value cs).bind fun n => digitsFrom? radix n more := by
  induction cs generalizing value with
  | nil => rfl
  | cons c cs ih =>
    rw [List.cons_append, digitsFrom?, digitsFrom?]
    cases digit? radix c with
    | none => rfl
    | some d => exact ih _

/-- Digits are read in either case. -/
theorem digitsFrom?_map_toLower (hradix : radix ≤ 16) (value : Nat) (cs : List Char) :
    digitsFrom? radix value (cs.map Char.toLower) = digitsFrom? radix value cs := by
  induction cs generalizing value with
  | nil => rfl
  | cons c cs ih =>
    have hdigit : digit? radix c.toLower = digit? radix c := by
      refine Option.ext fun d => ?_
      rw [digit?_eq_some_iff hradix, digit?_eq_some_iff hradix, Text.toLower_toLower]
    rw [List.map_cons, digitsFrom?, digitsFrom?, hdigit]
    cases digit? radix c with
    | none => rfl
    | some d => exact ih _

theorem digitsFrom?_replicate_zero (hpos : 0 < radix) (hradix : radix ≤ 16) (zeros : Nat) :
    digitsFrom? radix 0 (List.replicate zeros '0') = some 0 := by
  have hzero : digit? radix '0' = some 0 := (digit?_eq_some_iff hradix).2 ⟨hpos, rfl⟩
  induction zeros with
  | zero => rfl
  | succ zeros ih => simpa [List.replicate_succ, digitsFrom?, hzero] using ih

theorem digitsFrom?_toDigits (hpos : 1 < radix) (hradix : radix ≤ 16) (n : Nat) :
    digitsFrom? radix 0 (Nat.toDigits radix n) = some n := by
  have hdigit {d : Nat} (hd : d < radix) : digit? radix d.digitChar = some d := by
    have hlower : d.digitChar.toLower = d.digitChar := by
      have hall : ∀ d < 16, d.digitChar.toLower = d.digitChar := by decide
      exact hall d (Nat.lt_of_lt_of_le hd hradix)
    exact (digit?_eq_some_iff hradix).2 ⟨hd, hlower⟩
  induction n using Nat.strongRecOn with
  | ind n ih =>
    rcases Nat.lt_or_ge n radix with hlt | hge
    · simp [Nat.toDigits_of_lt_base hlt, digitsFrom?, hdigit hlt]
    · have hmod := hdigit (Nat.mod_lt n (by omega : 0 < radix))
      rw [Nat.toDigits_of_base_le hpos hge, digitsFrom?_append,
        ih _ (Nat.div_lt_self (by omega) hpos)]
      simp [digitsFrom?, hmod, Nat.div_add_mod']

/-- Reading on from a number that is not zero lengthens the row of its digits. -/
theorem toDigits_append_of_digitsFrom? (hpos : 1 < radix) (hradix : radix ≤ 16) {value n : Nat}
    (hvalue : 0 < value) {cs : List Char} (h : digitsFrom? radix value cs = some n) :
    Nat.toDigits radix value ++ cs.map Char.toLower = Nat.toDigits radix n := by
  induction cs generalizing value with
  | nil =>
    cases h
    simp
  | cons c cs ih =>
    rw [digitsFrom?] at h
    cases hc : digit? radix c with
    | none => simp [hc] at h
    | some d =>
      simp only [hc] at h
      obtain ⟨hd, hlower⟩ := (digit?_eq_some_iff hradix).1 hc
      have hnext : 0 < value * radix + d :=
        Nat.add_pos_left (Nat.mul_pos hvalue (by omega)) d
      rw [← ih hnext h, Nat.mul_comm value, ← Nat.toDigits_append_toDigits hpos hvalue hd,
        Nat.toDigits_of_lt_base hd, List.map_cons, hlower, List.append_assoc]
      rfl

/-- What is read from a row in front of which only zeros stand. The induction passes over zeros;
from the first other digit on the row lengthens the digits of a number. -/
theorem exists_of_digitsFrom?_zero (hpos : 1 < radix) (hradix : radix ≤ 16) {n : Nat} {c : Char}
    {cs : List Char} (h : digitsFrom? radix 0 (c :: cs) = some n) :
    ∃ zeros, (c :: cs).map Char.toLower = List.replicate zeros '0' ++ Nat.toDigits radix n := by
  induction cs generalizing c with
  | nil =>
    rw [digitsFrom?] at h
    cases hc : digit? radix c with
    | none => simp [hc] at h
    | some d =>
      obtain ⟨hd, hlower⟩ := (digit?_eq_some_iff hradix).1 hc
      simp only [hc, digitsFrom?, Nat.zero_mul, Nat.zero_add, Option.some.injEq] at h
      subst h
      exact ⟨0, by simp [hlower, Nat.toDigits_of_lt_base hd]⟩
  | cons next cs ih =>
    rw [digitsFrom?] at h
    cases hc : digit? radix c with
    | none => simp [hc] at h
    | some d =>
      obtain ⟨hd, hlower⟩ := (digit?_eq_some_iff hradix).1 hc
      simp only [hc, Nat.zero_mul, Nat.zero_add] at h
      rcases Nat.eq_zero_or_pos d with rfl | hdpos
      · obtain ⟨zeros, hzeros⟩ := ih h
        exact ⟨zeros + 1, by rw [List.map_cons, hzeros, hlower, List.replicate_succ]; rfl⟩
      · refine ⟨0, ?_⟩
        rw [← toDigits_append_of_digitsFrom? hpos hradix hdpos h, List.map_cons, hlower,
          Nat.toDigits_of_lt_base hd]
        rfl

/-- At least one digit is read just if the row shows a number. -/
theorem magnitude?_eq_some_iff (hpos : 1 < radix) (hradix : radix ≤ 16) {n : Nat}
    {cs : List Char} :
    magnitude? radix cs = some n ↔
      ∃ zeros, cs.map Char.toLower = List.replicate zeros '0' ++ Nat.toDigits radix n := by
  constructor
  · intro h
    cases cs with
    | nil => cases h
    | cons c cs => exact exists_of_digitsFrom?_zero hpos hradix h
  · rintro ⟨zeros, hzeros⟩
    have hne : cs ≠ [] := by
      rintro rfl
      simp [Nat.toDigits_ne_nil] at hzeros
    rw [magnitude?, if_neg (by simpa using hne), ← digitsFrom?_map_toLower hradix, hzeros,
      digitsFrom?_append, digitsFrom?_replicate_zero (by omega) hradix]
    exact digitsFrom?_toDigits hpos hradix n

/-! ## Integers -/

/-- Without a sign the digits give the integer. -/
theorem signed?_of_isUnsigned {cs : List Char} (h : ∀ c ∈ cs.head?, c ≠ '+' ∧ c ≠ '-') :
    signed? radix cs = (magnitude? radix cs).map Int.ofNat := by
  unfold signed?
  split
  · exact absurd rfl (h '-' rfl).2
  · exact absurd rfl (h '+' rfl).1
  · rfl

/-- A character of a numeral is a separator or a digit below the radix. -/
theorem IsNumeral.eq_or_exists_of_mem (hpos : 1 < radix) {cs : List Char} {n : Nat}
    (h : IsNumeral radix cs n) {c : Char} (hc : c ∈ cs) :
    c = '_' ∨ ∃ d < radix, c.toLower = d.digitChar := by
  obtain ⟨zeros, hzeros⟩ := h
  by_cases hseparator : c = '_'
  · exact .inl hseparator
  · have hmem : c.toLower ∈ List.replicate zeros '0' ++ Nat.toDigits radix n := by
      rw [← hzeros]
      exact List.mem_map_of_mem (List.mem_filter.2 ⟨hc, decide_eq_true hseparator⟩)
    rcases List.mem_append.1 hmem with hzero | hdigits
    · exact .inr ⟨0, by omega, (List.mem_replicate.1 hzero).2⟩
    · exact .inr (exists_of_mem_toDigits hpos hdigits)

/-- No character of a numeral fails a test that separators and all digits below the radix pass. -/
theorem IsNumeral.forall_mem (hpos : 1 < radix) {cs : List Char} {n : Nat}
    (h : IsNumeral radix cs n) {p : Char → Prop} (hseparator : p '_')
    (hdigits : ∀ d < radix, p d.digitChar) : ∀ c ∈ cs, p c.toLower := by
  intro c hc
  rcases h.eq_or_exists_of_mem hpos hc with rfl | ⟨d, hd, hlower⟩
  · exact hseparator
  · rw [hlower]
    exact hdigits d hd

theorem IsNumeral.ne_nil {cs : List Char} {n : Nat} (h : IsNumeral radix cs n) : cs ≠ [] := by
  rintro rfl
  obtain ⟨zeros, hzeros⟩ := h
  simp [Nat.toDigits_ne_nil] at hzeros

theorem IsNumeral.isUnsigned (hpos : 1 < radix) (hradix : radix ≤ 16) {cs : List Char} {n : Nat}
    (h : IsNumeral radix cs n) : IsUnsigned cs := by
  have hsigns : ∀ d < 16, d.digitChar ≠ '+' ∧ d.digitChar ≠ '-' := by decide
  have hplain := h.forall_mem hpos (p := fun c => c ≠ '+' ∧ c ≠ '-') (by decide) fun d hd =>
    hsigns d (Nat.lt_of_lt_of_le hd hradix)
  intro c hc
  have hlower := hplain c (List.mem_filter.1 (List.mem_of_mem_head? hc)).1
  constructor
  · rintro rfl
    exact hlower.1 rfl
  · rintro rfl
    exact hlower.2 rfl

/-- A natural number is represented just if it is below two to the power of 127. -/
theorem bounded_natCast_eq_some_iff {n : Nat} {k : Int} :
    bounded n = some k ↔ k = n ∧ n < 2 ^ 127 := by
  rw [bounded_eq_some_iff, least, greatest]
  constructor
  · rintro ⟨rfl, -, hn⟩
    exact ⟨rfl, by omega⟩
  · rintro ⟨rfl, hn⟩
    exact ⟨rfl, by omega, by omega⟩

/-- A row without a sign is read as the numbers it shows, as far as they are represented. -/
theorem ofDigits?_eq_some_iff (hpos : 1 < radix) (hradix : radix ≤ 16) {cs : List Char}
    (hunsigned : IsUnsigned cs) {k : Int} :
    ofDigits? radix cs = some k ↔ ∃ n : Nat, k = n ∧ n < 2 ^ 127 ∧ IsNumeral radix cs n := by
  rw [ofDigits?, signed?_of_isUnsigned hunsigned, Option.bind_eq_some_iff]
  constructor
  · rintro ⟨m, hm, hbounded⟩
    obtain ⟨n, hn, rfl⟩ := Option.map_eq_some_iff.1 hm
    obtain ⟨hk, hlt⟩ := bounded_natCast_eq_some_iff.1 hbounded
    exact ⟨n, hk, hlt, (magnitude?_eq_some_iff hpos hradix).1 hn⟩
  · rintro ⟨n, hk, hlt, hnumeral⟩
    exact ⟨n, Option.map_eq_some_iff.2 ⟨n, (magnitude?_eq_some_iff hpos hradix).2 hnumeral, rfl⟩,
      bounded_natCast_eq_some_iff.2 ⟨hk, hlt⟩⟩

end ZeroAlloc.Integer
