import ZeroAlloc.Proofs.Integer
import ZeroAlloc.Proofs.Lexis.Comment
set_option autoImplicit false

/-! # Integer literals

A number of a text is worth the integer that it spells in one of the integral forms of its language,
and nothing if it spells none (`Language.literal?_number`). The forms are given by what may stand in
front of the digits and behind them, not by how a literal is read. A sign in front of the digits
would be read too; but the lexer leaves a sign only to the exponent of a decimal number, and decimal
numbers have no mark in front of their digits. -/

namespace ZeroAlloc

/-! ## Integral forms -/

/-- The marks in front of the digits, in lower case, and the radix that each announces. -/
def Language.radixMarks : Language → List (String × Nat)
  | csharp => [("", 10), ("0x", 16), ("0b", 2)]
  | visualBasic => [("", 10), ("&h", 16), ("&o", 8), ("&b", 2)]

/-- The characters that may stand behind the digits, in lower case. -/
def Language.integralSuffixes : Language → List Char
  | csharp => ['u', 'l']
  | visualBasic => ['u', 's', 'i', 'l', '%', '&']

/-- The text is a literal of the number in an integral form: a mark, a numeral in the radix of the
mark and any suffix characters, in any case. -/
def Language.SpellsInteger (language : Language) (text : String) (n : Nat) : Prop :=
  ∃ mark radix, (mark, radix) ∈ language.radixMarks ∧ ∃ marked digits suffix : List Char,
    text.toList = marked ++ digits ++ suffix ∧ marked.map Char.toLower = mark.toList ∧
      Integer.IsNumeral radix digits n ∧ ∀ c ∈ suffix, c.toLower ∈ language.integralSuffixes

/-- No sign stands in front of the first digit, behind whatever mark the digits have. -/
def Language.IsUnsignedLiteral (language : Language) (text : String) : Prop :=
  ∀ mark radix, (mark, radix) ∈ language.radixMarks → ∀ marked digits : List Char,
    text.toList = marked ++ digits → marked.map Char.toLower = mark.toList →
      Integer.IsUnsigned digits

/-- The radix of every mark is one that digits are read in. -/
theorem Language.radix_bounds {language : Language} {mark : String} {radix : Nat}
    (h : (mark, radix) ∈ language.radixMarks) : 1 < radix ∧ radix ≤ 16 := by
  have hall : ∀ p ∈ language.radixMarks, 1 < p.2 ∧ p.2 ≤ 16 := by
    cases language <;> decide
  exact hall _ h

/-! ## Dropping a suffix -/

section Suffix

variable {p : Char → Bool} {cs : List Char}

/-- Behind what is left stands what has been dropped. -/
theorem exists_append_dropTrailing (p : Char → Bool) (cs : List Char) :
    ∃ suffix, cs = dropTrailing p cs ++ suffix ∧ ∀ c ∈ suffix, p c = true := by
  refine ⟨(cs.reverse.takeWhile p).reverse, ?_, fun c hc => ?_⟩
  · rw [dropTrailing, ← List.reverse_append, List.takeWhile_append_dropWhile, List.reverse_reverse]
  · exact List.all_eq_true.1 List.all_takeWhile c (List.mem_reverse.1 hc)

theorem dropTrailing_append {suffix : List Char} (hne : cs ≠ []) (hcs : ∀ c ∈ cs, p c = false)
    (hsuffix : ∀ c ∈ suffix, p c = true) (mark : List Char) :
    dropTrailing p (mark ++ cs ++ suffix) = mark ++ cs := by
  obtain ⟨c, front, hreverse⟩ := List.exists_cons_of_ne_nil (mt List.reverse_eq_nil_iff.1 hne)
  have hc : p c = false := hcs c (List.mem_reverse.1 (hreverse ▸ List.mem_cons_self))
  rw [dropTrailing, List.reverse_append, List.dropWhile_append_of_pos
    fun c hc => hsuffix c (List.mem_reverse.1 hc), List.reverse_append, hreverse, List.cons_append,
    List.dropWhile_cons_of_neg (by simp [hc]), ← List.cons_append, ← hreverse,
    ← List.reverse_append, List.reverse_reverse]

theorem dropTrailing_map (f : Char → Char) :
    dropTrailing p (cs.map f) = (dropTrailing (p ∘ f) cs).map f := by
  rw [dropTrailing, dropTrailing, ← List.map_reverse, List.dropWhile_map, List.map_reverse]

end Suffix

/-- Numerals in lower case are read as integers. -/
theorem Integer.exists_of_ofDigits? {radix : Nat} (hpos : 1 < radix) (hradix : radix ≤ 16)
    {cs : List Char} (hunsigned : IsUnsigned cs) {k : Int}
    (h : ofDigits? radix (cs.map Char.toLower) = some k) :
    ∃ n : Nat, k = n ∧ n < 2 ^ 127 ∧ IsNumeral radix cs n := by
  obtain ⟨n, hk, hn, hnumeral⟩ :=
    (ofDigits?_eq_some_iff hpos hradix (isUnsigned_map_toLower.2 hunsigned)).1 h
  exact ⟨n, hk, hn, isNumeral_map_toLower.1 hnumeral⟩

theorem Integer.ofDigits?_of_isNumeral {radix : Nat} (hpos : 1 < radix) (hradix : radix ≤ 16)
    {cs : List Char} {n : Nat} (h : IsNumeral radix cs n) (hn : n < 2 ^ 127) :
    ofDigits? radix (cs.map Char.toLower) = some (n : Int) := by
  have hlower := isNumeral_map_toLower.2 h
  exact (ofDigits?_eq_some_iff hpos hradix (hlower.isUnsigned hpos hradix)).2 ⟨n, rfl, hn, hlower⟩

open Integer (IsNumeral IsUnsigned)

namespace Language

variable {language : Language} {text : String}

/-- Digits behind a mark and in front of a suffix are read as an integer that the text spells. -/
theorem exists_of_ofDigits? (hunsigned : language.IsUnsignedLiteral text) {mark : String}
    {radix : Nat} (hmark : (mark, radix) ∈ language.radixMarks) {marked digits suffix : List Char}
    (htext : text.toList = marked ++ digits ++ suffix)
    (hmarked : marked.map Char.toLower = mark.toList)
    (hsuffix : ∀ c ∈ suffix, c.toLower ∈ language.integralSuffixes) {k : Int}
    (h : Integer.ofDigits? radix (digits.map Char.toLower) = some k) :
    ∃ n : Nat, k = n ∧ n < 2 ^ 127 ∧ language.SpellsInteger text n := by
  obtain ⟨hpos, hradix⟩ := radix_bounds hmark
  have hdigits : IsUnsigned digits :=
    (hunsigned mark radix hmark marked (digits ++ suffix)
      (by rw [htext, List.append_assoc]) hmarked).of_append
  obtain ⟨n, hk, hn, hnumeral⟩ := Integer.exists_of_ofDigits? hpos hradix hdigits h
  exact ⟨n, hk, hn, mark, radix, hmark, marked, digits, suffix, htext, hmarked, hnumeral, hsuffix⟩

/-- No digit is a suffix character. -/
theorem notMem_integralSuffixes {radix : Nat} (hpos : 1 < radix) (hradix : radix ≤ 16)
    {digits : List Char} {n : Nat} (h : IsNumeral radix digits n) :
    ∀ c ∈ digits, c.toLower ∉ language.integralSuffixes := by
  have hseparator : '_' ∉ language.integralSuffixes := by
    cases language <;> decide
  have hdigits : ∀ d < 16, d.digitChar ∉ language.integralSuffixes := by
    cases language <;> decide
  exact h.forall_mem hpos (p := (· ∉ language.integralSuffixes)) hseparator
    fun d hd => hdigits d (Nat.lt_of_lt_of_le hd hradix)

end Language

/-- A text without signs is unsigned. -/
theorem Language.isUnsignedLiteral_of_not_mem {language : Language} {text : String}
    (hplus : '+' ∉ text.toList) (hminus : '-' ∉ text.toList) :
    language.IsUnsignedLiteral text := by
  intro mark radix _ marked digits htext _ c hc
  have hmem : c ∈ text.toList := by
    rw [htext]
    exact List.mem_append_right _ (List.mem_filter.1 (List.mem_of_mem_head? hc)).1
  exact ⟨fun h => hplus (h ▸ hmem), fun h => hminus (h ▸ hmem)⟩

/-- Digits that start with a digit are unsigned. -/
theorem Integer.isUnsigned_cons {c : Char} (hc : c.isDigit = true) (cs : List Char) :
    IsUnsigned (c :: cs) := by
  have hkept : (c :: cs).filter (· ≠ '_') = c :: cs.filter (· ≠ '_') :=
    List.filter_cons_of_pos (decide_eq_true (ne_of_isDigit hc rfl))
  rw [IsUnsigned, hkept]
  rintro d hd
  obtain rfl : c = d := Option.some.inj hd
  exact ⟨ne_of_isDigit hc rfl, ne_of_isDigit hc rfl⟩

/-! ## Reading literals -/

namespace CSharp

/-- The test for the characters of a suffix. -/
theorem mem_integralSuffixes {c : Char} :
    c ∈ Language.csharp.integralSuffixes ↔ (c == 'u' || c == 'l') = true := by
  simp [Language.integralSuffixes]

/-- What is read is spelled in an integral form, unless the digits have a sign. -/
theorem exists_of_literal? {text : String} {k : Int}
    (hunsigned : Language.csharp.IsUnsignedLiteral text) (h : literal? text = some k) :
    ∃ n : Nat, k = n ∧ n < 2 ^ 127 ∧ Language.csharp.SpellsInteger text n := by
  obtain ⟨suffix, htext, hsuffix⟩ :=
    exists_append_dropTrailing ((fun c => c == 'u' || c == 'l') ∘ Char.toLower) text.toList
  replace hsuffix := fun c hc => mem_integralSuffixes.2 (hsuffix c hc)
  rw [literal?, dropTrailing_map] at h
  split at h
  · rename_i hlower
    obtain ⟨marked, digits, hbody, hmarked, rfl⟩ :=
      List.map_eq_append_iff.1 (show _ = "0x".toList ++ _ from hlower)
    rw [hbody] at htext
    exact Language.exists_of_ofDigits? hunsigned (by decide) htext hmarked hsuffix h
  · rename_i hlower
    obtain ⟨marked, digits, hbody, hmarked, rfl⟩ :=
      List.map_eq_append_iff.1 (show _ = "0b".toList ++ _ from hlower)
    rw [hbody] at htext
    exact Language.exists_of_ofDigits? hunsigned (by decide) htext hmarked hsuffix h
  · have hmark : ("", 10) ∈ Language.csharp.radixMarks := by decide
    have hmarked : ([] : List Char).map Char.toLower = "".toList := rfl
    exact Language.exists_of_ofDigits? hunsigned hmark htext hmarked hsuffix h

/-- Without the letters of the marks, a literal is decimal. -/
theorem literal?_of_decimal {text : String} {digits : List Char}
    (hdigits : dropTrailing (fun c => c == 'u' || c == 'l') (text.toList.map Char.toLower) = digits)
    (hhexadecimal : 'x' ∉ digits) (hbinary : 'b' ∉ digits) :
    literal? text = Integer.ofDigits? 10 digits := by
  rw [literal?, hdigits]
  split
  · exact absurd (by simp) hhexadecimal
  · exact absurd (by simp) hbinary
  · rfl

/-- Every integral form is read. -/
theorem literal?_of_spellsInteger {text : String} {n : Nat} (hn : n < 2 ^ 127)
    (h : Language.csharp.SpellsInteger text n) : literal? text = some (n : Int) := by
  obtain ⟨mark, radix, hmark, marked, digits, suffix, htext, hmarked, hnumeral, hsuffix⟩ := h
  obtain ⟨hpos, hradix⟩ := Language.radix_bounds hmark
  have hdigits := Integer.ofDigits?_of_isNumeral hpos hradix hnumeral hn
  have hbody : dropTrailing (fun c => c == 'u' || c == 'l') (text.toList.map Char.toLower) =
      mark.toList ++ digits.map Char.toLower := by
    rw [htext, List.map_append, List.map_append, hmarked]
    refine dropTrailing_append (by simpa using hnumeral.ne_nil) ?_ ?_ _
    · exact List.forall_mem_map.2 fun c hc => Bool.eq_false_iff.2 <|
        mt mem_integralSuffixes.2 (Language.notMem_integralSuffixes hpos hradix hnumeral c hc)
    · exact List.forall_mem_map.2 fun c hc => mem_integralSuffixes.1 (hsuffix c hc)
  simp only [Language.radixMarks, List.mem_cons, Prod.mk.injEq, List.not_mem_nil, or_false] at hmark
  obtain ⟨rfl, rfl⟩ | ⟨rfl, rfl⟩ | ⟨rfl, rfl⟩ := hmark
  · have hdecimal : ∀ c ∈ digits.map Char.toLower, c ≠ 'x' ∧ c ≠ 'b' :=
      List.forall_mem_map.2 <| hnumeral.forall_mem hpos (p := fun c => c ≠ 'x' ∧ c ≠ 'b')
        (by decide) (by decide)
    rw [literal?_of_decimal hbody (fun h => (hdecimal _ h).1 rfl) fun h => (hdecimal _ h).2 rfl]
    exact hdigits
  · rw [literal?, hbody]
    exact hdigits
  · rw [literal?, hbody]
    exact hdigits

end CSharp

namespace VisualBasic

/-- The test for the characters of a suffix. -/
theorem mem_integralSuffixes {c : Char} :
    c ∈ Language.visualBasic.integralSuffixes ↔ isIntegralSuffix c = true := by
  simp [Language.integralSuffixes, isIntegralSuffix, or_assoc]

/-- The digits behind a mark, read without their suffix. -/
theorem exists_of_ofDigits?_dropTrailing {text : String} {k : Int}
    (hunsigned : Language.visualBasic.IsUnsignedLiteral text) {mark : String} {radix : Nat}
    (hmark : (mark, radix) ∈ Language.visualBasic.radixMarks) {marked digits : List Char}
    (htext : text.toList = marked ++ digits) (hmarked : marked.map Char.toLower = mark.toList)
    (h : Integer.ofDigits? radix (dropTrailing isIntegralSuffix (digits.map Char.toLower)) =
      some k) :
    ∃ n : Nat, k = n ∧ n < 2 ^ 127 ∧ Language.visualBasic.SpellsInteger text n := by
  obtain ⟨suffix, hdigits, hsuffix⟩ :=
    exists_append_dropTrailing (isIntegralSuffix ∘ Char.toLower) digits
  rw [dropTrailing_map] at h
  rw [hdigits, ← List.append_assoc] at htext
  exact Language.exists_of_ofDigits? hunsigned hmark htext hmarked
    (fun c hc => mem_integralSuffixes.2 (hsuffix c hc)) h

/-- What is read is spelled in an integral form, unless the digits have a sign. -/
theorem exists_of_literal? {text : String} {k : Int}
    (hunsigned : Language.visualBasic.IsUnsignedLiteral text) (h : literal? text = some k) :
    ∃ n : Nat, k = n ∧ n < 2 ^ 127 ∧ Language.visualBasic.SpellsInteger text n := by
  rw [literal?] at h
  split at h
  · rename_i hlower
    obtain ⟨marked, digits, htext, hmarked, rfl⟩ :=
      List.map_eq_append_iff.1 (show _ = "&h".toList ++ _ from hlower)
    exact exists_of_ofDigits?_dropTrailing hunsigned (by decide) htext hmarked h
  · rename_i hlower
    obtain ⟨marked, digits, htext, hmarked, rfl⟩ :=
      List.map_eq_append_iff.1 (show _ = "&o".toList ++ _ from hlower)
    exact exists_of_ofDigits?_dropTrailing hunsigned (by decide) htext hmarked h
  · rename_i hlower
    obtain ⟨marked, digits, htext, hmarked, rfl⟩ :=
      List.map_eq_append_iff.1 (show _ = "&b".toList ++ _ from hlower)
    exact exists_of_ofDigits?_dropTrailing hunsigned (by decide) htext hmarked h
  · cases h
  · split at h
    · cases h
    · have hmark : ("", 10) ∈ Language.visualBasic.radixMarks := by decide
      have hmarked : ([] : List Char).map Char.toLower = "".toList := rfl
      exact exists_of_ofDigits?_dropTrailing hunsigned hmark rfl hmarked h

/-- Without an ampersand in front and a fractional suffix, a literal is decimal. -/
theorem literal?_of_decimal {text : String} {cs : List Char}
    (hlower : text.toList.map Char.toLower = cs) (hhead : ∀ more, cs ≠ '&' :: more)
    (hlast : ∀ c ∈ cs, isFractionalSuffix c = false) :
    literal? text = Integer.ofDigits? 10 (dropTrailing isIntegralSuffix cs) := by
  have hsuffix : cs.getLast?.any isFractionalSuffix = false := by
    rw [Option.any_eq_false]
    exact fun c hc => by simp [hlast c (List.mem_of_getLast? hc)]
  rw [literal?, hlower]
  split
  next => exact absurd rfl (hhead _)
  next => exact absurd rfl (hhead _)
  next => exact absurd rfl (hhead _)
  next => exact absurd rfl (hhead _)
  next => rw [hsuffix, if_neg Bool.false_ne_true]

/-- Every integral form is read. -/
theorem literal?_of_spellsInteger {text : String} {n : Nat} (hn : n < 2 ^ 127)
    (h : Language.visualBasic.SpellsInteger text n) : literal? text = some (n : Int) := by
  obtain ⟨mark, radix, hmark, marked, digits, suffix, htext, hmarked, hnumeral, hsuffix⟩ := h
  obtain ⟨hpos, hradix⟩ := Language.radix_bounds hmark
  have hdigits := Integer.ofDigits?_of_isNumeral hpos hradix hnumeral hn
  have hdrop : dropTrailing isIntegralSuffix (digits.map Char.toLower ++ suffix.map Char.toLower) =
      digits.map Char.toLower := by
    refine dropTrailing_append (by simpa using hnumeral.ne_nil) ?_ ?_ []
    · exact List.forall_mem_map.2 fun c hc => Bool.eq_false_iff.2 <|
        mt mem_integralSuffixes.2 (Language.notMem_integralSuffixes hpos hradix hnumeral c hc)
    · exact List.forall_mem_map.2 fun c hc => mem_integralSuffixes.1 (hsuffix c hc)
  have hlower : text.toList.map Char.toLower =
      mark.toList ++ (digits.map Char.toLower ++ suffix.map Char.toLower) := by
    rw [htext, List.map_append, List.map_append, hmarked, List.append_assoc]
  simp only [Language.radixMarks, List.mem_cons, Prod.mk.injEq, List.not_mem_nil, or_false] at hmark
  obtain ⟨rfl, rfl⟩ | ⟨rfl, rfl⟩ | ⟨rfl, rfl⟩ | ⟨rfl, rfl⟩ := hmark
  · -- among decimal digits and integral suffixes nothing tells of another kind of literal
    have hdecimal : ∀ c ∈ digits.map Char.toLower, c ≠ '&' ∧ isFractionalSuffix c = false :=
      List.forall_mem_map.2 <| hnumeral.forall_mem hpos
        (p := fun c => c ≠ '&' ∧ isFractionalSuffix c = false) (by decide) (by decide)
    have hintegral : ∀ c ∈ suffix.map Char.toLower, isFractionalSuffix c = false := by
      have hall : ∀ c ∈ Language.visualBasic.integralSuffixes, isFractionalSuffix c = false := by
        simp [Language.integralSuffixes, isFractionalSuffix]
      exact List.forall_mem_map.2 fun c hc => hall _ (hsuffix c hc)
    have hhead (more : List Char) :
        digits.map Char.toLower ++ suffix.map Char.toLower ≠ '&' :: more := by
      obtain ⟨c, rest, rfl⟩ := List.exists_cons_of_ne_nil hnumeral.ne_nil
      intro heq
      exact (hdecimal c.toLower (by simp)).1 (List.cons.inj heq).1
    rw [show "".toList = [] from rfl, List.nil_append] at hlower
    rw [literal?_of_decimal hlower hhead
      (List.forall_mem_append.2 ⟨fun c hc => (hdecimal c hc).2, hintegral⟩), hdrop]
    exact hdigits
  · rw [literal?, hlower]
    exact (congrArg _ hdrop).trans hdigits
  · rw [literal?, hlower]
    exact (congrArg _ hdrop).trans hdigits
  · rw [literal?, hlower]
    exact (congrArg _ hdrop).trans hdigits

end VisualBasic

namespace Language

theorem exists_of_literal? {language : Language} {text : String} {k : Int}
    (hunsigned : language.IsUnsignedLiteral text) (h : language.dialect.literal? text = some k) :
    ∃ n : Nat, k = n ∧ n < 2 ^ 127 ∧ language.SpellsInteger text n := by
  cases language with
  | csharp => exact CSharp.exists_of_literal? hunsigned h
  | visualBasic => exact VisualBasic.exists_of_literal? hunsigned h

theorem literal?_of_spellsInteger {language : Language} {text : String} {n : Nat}
    (hn : n < 2 ^ 127) (h : language.SpellsInteger text n) :
    language.dialect.literal? text = some (n : Int) := by
  cases language with
  | csharp => exact CSharp.literal?_of_spellsInteger hn h
  | visualBasic => exact VisualBasic.literal?_of_spellsInteger hn h

end Language

/-! ## Numbers of a text -/

namespace Lexis

/-- What a rule covers holds no character that its expression excludes. -/
theorem not_mem_take_of_excludes {extent : List Char → Nat} {p : Pattern}
    (hp : p.shape = Shape.ofExtent extent) {x : Char} (hx : p.excludes x = true) {cs : List Char}
    {n : Nat} (h : extent cs = n + 1) : x ∉ cs.take (n + 1) := by
  have hshape : p.shape cs = some (n + 1) := by
    rw [hp, Shape.ofExtent, h]
    rfl
  obtain ⟨covered, rest, rfl, hcovered, hlength⟩ :=
    (Pattern.isWithin_of_excludes hx).exists_of_shape hshape
  rw [hlength, List.take_left']
  · intro hmem
    exact hcovered x hmem rfl
  · rfl

/-- A decimal number starts with a digit. -/
theorem exists_of_decimalNumber {cs : List Char} (h : decimalNumber cs ≠ 0) :
    ∃ c rest, cs = c :: rest ∧ c.isDigit = true := by
  rw [decimalNumber] at h
  split at h
  · exact absurd rfl h
  next hwhole =>
    cases cs with
    | nil => exact absurd rfl hwhole
    | cons c rest =>
      by_cases hc : c.isDigit = true
      · exact ⟨c, rest, rfl, hc⟩
      · exact absurd (by rw [wholePart, if_neg hc]) hwhole

/-- A number is the extent of one of the rules for numbers. -/
theorem exists_extent_of_mem_tokenize {rules : List Rule} {source : String} {t : Token}
    (h : t ∈ tokenize rules source) (hnumber : t.kind = .number) :
    ∃ rule ∈ rules, rule.kind = some .number ∧ ∃ cs n, rule.extent cs = n + 1 ∧
      t.text.toList = cs.take (n + 1) := by
  obtain ⟨c, rest, n, -, htext, hfirst⟩ := exists_rule_of_mem_tokensFrom h
  rw [hnumber] at hfirst
  obtain ⟨rule, hrule, hclass, hextent⟩ | ⟨herror, -⟩ := exists_rule_of_firstRule hfirst
  · exact ⟨rule, hrule, hclass, c :: rest, n, hextent, by rw [htext, String.toList_ofList]; rfl⟩
  · cases herror

end Lexis

/-- A number of an expression without signs is unsigned. -/
theorem Language.isUnsignedLiteral_of_excludes {language : Language} {text : String}
    {extent : List Char → Nat} {p : Lexis.Pattern} (hp : p.shape = Lexis.Shape.ofExtent extent)
    (hplus : p.excludes '+' = true) (hminus : p.excludes '-' = true) {cs : List Char} {n : Nat}
    (hextent : extent cs = n + 1) (htext : text.toList = cs.take (n + 1)) :
    language.IsUnsignedLiteral text := by
  refine isUnsignedLiteral_of_not_mem ?_ ?_ <;> rw [htext]
  · exact Lexis.not_mem_take_of_excludes hp hplus hextent
  · exact Lexis.not_mem_take_of_excludes hp hminus hextent

namespace CSharp

open Lexis Lexis.CSharp

/-- A letter that no decimal number goes on with ends it behind the first digit. -/
theorem number_le_one {c x : Char} (hx : x.toLower = 'x' ∨ x.toLower = 'b') (cs : List Char) :
    number (c :: x :: cs) ≤ 1 := by
  have hcase : Text.FoldsCase fun c => isDigitOrSeparator c || c == 'e' || c == 'E' ||
      c == '.' || isNumberSuffix c := by decide
  have hstops : (isDigitOrSeparator x || x == 'e' || x == 'E' || x == '.' || isNumberSuffix x) =
      false := by
    rw [← hcase.apply_toLower x]
    rcases hx with hx | hx <;> rw [hx] <;> decide
  simp only [Bool.or_eq_false_iff, beq_eq_false_iff_ne] at hstops
  obtain ⟨⟨⟨⟨hdigit, he⟩, hE⟩, hpoint⟩, hsuffix⟩ := hstops
  have hfraction : fractionPart (x :: cs) = 0 := by
    rw [fractionPart]
    intro rest heq
    exact hpoint (List.cons.inj heq).1
  have hexponent : exponentPart (x :: cs) = 0 := by
    simp [exponentPart, he, hE]
  have hwhole : wholePart (c :: x :: cs) = if c.isDigit then 1 else 0 := by
    simp [wholePart, run, hdigit]
  by_cases hc : c.isDigit = true
  · have hdecimal : decimalNumber (c :: x :: cs) = 1 := by
      simp [decimalNumber, hwhole, hc, hfraction, hexponent]
    simp [number, hdecimal, run, hsuffix]
  · have hdecimal : decimalNumber (c :: x :: cs) = 0 := by
      simp [decimalNumber, hwhole, hc]
    simp [number, hdecimal]

/-- A decimal number has no mark, so its digits are all of it. -/
theorem isUnsignedLiteral_of_number {text : String} {cs : List Char} {n : Nat}
    (h : number cs = n + 1) (htext : text.toList = cs.take (n + 1)) :
    Language.csharp.IsUnsignedLiteral text := by
  have hdecimal : decimalNumber cs ≠ 0 := by
    intro hzero
    rw [number, hzero] at h
    cases h
  obtain ⟨c, rest, rfl, hc⟩ := exists_of_decimalNumber hdecimal
  rw [List.take_succ_cons] at htext
  intro mark radix hmark marked digits hmarked hlower
  rw [htext] at hmarked
  -- a letter of a mark would be the second character, which the number does not reach
  have hletter {more : List Char} {zero x : Char} (hx : x = 'x' ∨ x = 'b')
      (hlower : more.map Char.toLower = [zero, x]) : c :: rest.take n ≠ more ++ digits := by
    obtain ⟨d, more, rfl, -, hmore⟩ := List.map_eq_cons_iff.1 hlower
    obtain ⟨y, more, rfl, hy, -⟩ := List.map_eq_cons_iff.1 hmore
    intro heq
    have htake : rest.take n = y :: (more ++ digits) := (List.cons.inj heq).2
    obtain ⟨rest, rfl⟩ : ∃ tail, rest = y :: tail := by
      cases rest with
      | nil => simp at htake
      | cons z rest =>
        cases n with
        | zero => cases htake
        | succ n => exact ⟨rest, by rw [(List.cons.inj htake).1]⟩
    have hone := number_le_one (c := c) (x := y) (by rwa [hy]) rest
    obtain rfl : n = 0 := by omega
    cases htake
  simp only [Language.radixMarks, List.mem_cons, Prod.mk.injEq, List.not_mem_nil, or_false] at hmark
  obtain ⟨rfl, -⟩ | ⟨rfl, -⟩ | ⟨rfl, -⟩ := hmark
  · obtain rfl := List.map_eq_nil_iff.1 hlower
    rw [List.nil_append] at hmarked
    rw [← hmarked]
    exact Integer.isUnsigned_cons hc _
  · exact absurd hmarked (hletter (.inl rfl) hlower)
  · exact absurd hmarked (hletter (.inr rfl) hlower)

theorem isUnsignedLiteral_of_mem_tokenize {source : String} {t : Token}
    (h : t ∈ tokenize rules source) (hnumber : t.kind = .number) :
    Language.csharp.IsUnsignedLiteral t.text := by
  obtain ⟨rule, hrule, hclass, cs, n, hextent, htext⟩ := exists_extent_of_mem_tokenize h hnumber
  simp only [rules, List.mem_cons, List.not_mem_nil, or_false] at hrule
  rcases hrule with rfl | rfl | rfl | rfl | rfl | rfl | rfl | rfl | rfl | rfl | rfl | rfl | rfl |
    rfl <;> cases hclass
  · exact Language.isUnsignedLiteral_of_excludes (shape_radixNumberPattern 'x' 'X' isHexOrSeparator)
      rfl rfl hextent htext
  · exact Language.isUnsignedLiteral_of_excludes
      (shape_radixNumberPattern 'b' 'B' isBinaryOrSeparator) rfl rfl hextent htext
  · exact isUnsignedLiteral_of_number hextent htext

end CSharp

namespace VisualBasic

open Lexis Lexis.VisualBasic

/-- A decimal number has no mark, so its digits are all of it. -/
theorem isUnsignedLiteral_of_number {text : String} {cs : List Char} {n : Nat}
    (h : number cs = n + 1) (htext : text.toList = cs.take (n + 1)) :
    Language.visualBasic.IsUnsignedLiteral text := by
  have hdecimal : decimalNumber cs ≠ 0 := by
    intro hzero
    rw [number, hzero] at h
    cases h
  obtain ⟨c, rest, rfl, hc⟩ := exists_of_decimalNumber hdecimal
  rw [List.take_succ_cons] at htext
  intro mark radix hmark marked digits hmarked hlower
  rw [htext] at hmarked
  have hampersand {more : List Char} {letter : Char} {lower : List Char}
      (hlower : more.map Char.toLower = '&' :: letter :: lower) :
      c :: rest.take n ≠ more ++ digits := by
    obtain ⟨d, more, rfl, hd, -⟩ := List.map_eq_cons_iff.1 hlower
    intro heq
    obtain rfl : c = d := (List.cons.inj heq).1
    rw [(Text.toLower_eq_iff rfl).1 hd] at hc
    cases hc
  simp only [Language.radixMarks, List.mem_cons, Prod.mk.injEq, List.not_mem_nil, or_false] at hmark
  obtain ⟨rfl, -⟩ | ⟨rfl, -⟩ | ⟨rfl, -⟩ | ⟨rfl, -⟩ := hmark
  · obtain rfl := List.map_eq_nil_iff.1 hlower
    rw [List.nil_append] at hmarked
    rw [← hmarked]
    exact Integer.isUnsigned_cons hc _
  · exact absurd hmarked (hampersand hlower)
  · exact absurd hmarked (hampersand hlower)
  · exact absurd hmarked (hampersand hlower)

theorem isUnsignedLiteral_of_mem_tokenize {source : String} {t : Token}
    (h : t ∈ tokenize rules source) (hnumber : t.kind = .number) :
    Language.visualBasic.IsUnsignedLiteral t.text := by
  obtain ⟨rule, hrule, hclass, cs, n, hextent, htext⟩ := exists_extent_of_mem_tokenize h hnumber
  simp only [rules, List.mem_cons, List.not_mem_nil, or_false] at hrule
  rcases hrule with rfl | rfl | rfl | rfl | rfl | rfl | rfl | rfl | rfl | rfl | rfl | rfl | rfl |
    rfl | rfl | rfl <;> cases hclass
  · exact Language.isUnsignedLiteral_of_excludes (shape_radixNumberPattern 'h' isHexOrSeparator)
      rfl rfl hextent htext
  · exact Language.isUnsignedLiteral_of_excludes (shape_radixNumberPattern 'o' isOctalOrSeparator)
      rfl rfl hextent htext
  · exact Language.isUnsignedLiteral_of_excludes (shape_radixNumberPattern 'b' isBinaryOrSeparator)
      rfl rfl hextent htext
  · exact isUnsignedLiteral_of_number hextent htext

end VisualBasic

namespace Language

theorem isUnsignedLiteral_of_mem_tokenize {language : Language} {source : String} {t : Token}
    (h : t ∈ Lexis.tokenize language.rules source) (hnumber : t.kind = .number) :
    language.IsUnsignedLiteral t.text := by
  cases language with
  | csharp => exact CSharp.isUnsignedLiteral_of_mem_tokenize h hnumber
  | visualBasic => exact VisualBasic.isUnsignedLiteral_of_mem_tokenize h hnumber

/-- A number of a text is worth an integer exactly if it spells that integer in an integral form and
the integer is below two to the power of 127; and whatever spells such an integer is worth it. -/
theorem literal?_number (language : Language) :
    (∀ source, ∀ t ∈ Lexis.tokenize language.rules source, t.kind = .number → ∀ k : Int,
      language.dialect.literal? t.text = some k ↔
        ∃ n : Nat, k = n ∧ n < 2 ^ 127 ∧ language.SpellsInteger t.text n) ∧
    ∀ (text : String) (n : Nat), n < 2 ^ 127 → language.SpellsInteger text n →
      language.dialect.literal? text = some (n : Int) := by
  refine ⟨fun source t ht hnumber k => ⟨fun h => ?_, ?_⟩, fun text n hn h => ?_⟩
  · exact exists_of_literal? (isUnsignedLiteral_of_mem_tokenize ht hnumber) h
  · rintro ⟨n, rfl, hn, h⟩
    exact literal?_of_spellsInteger hn h
  · exact literal?_of_spellsInteger hn h

/-- A hexadecimal number with a separator and a suffix, and an octal one with a mark in lower case,
are worth what their digits say. -/
theorem literal?_number_thirtyOne :
    Language.csharp.dialect.literal? "0x1F_uL" = some 31 ∧
      Language.visualBasic.dialect.literal? "&o037%" = some 31 := by
  have ht : (⟨⟨.number, "0x1F_uL"⟩, 0⟩ : Token) ∈ Lexis.tokenize csharp.rules "0x1F_uL" := by
    decide +kernel
  refine ⟨((literal?_number .csharp).1 _ _ ht rfl 31).2 ⟨31, rfl, by decide, ?_⟩,
    (literal?_number .visualBasic).2 "&o037%" 31 (by decide) ?_⟩
  · exact ⟨"0x", 16, by decide, ['0', 'x'], ['1', 'F', '_'], ['u', 'L'], rfl, rfl,
      ⟨0, by decide⟩, by simp [integralSuffixes]⟩
  · exact ⟨"&o", 8, by decide, ['&', 'o'], ['0', '3', '7'], ['%'], rfl, rfl,
      ⟨1, by decide⟩, by simp [integralSuffixes]⟩

end Language

end ZeroAlloc
