import Mathlib.Data.List.TakeWhile
import ZeroAlloc.Proofs.Lexis.Shape
set_option autoImplicit false

/-! # What lexical shapes cover

Names, numbers and punctuation stay on their line, a literal does not end with a carriage return,
and what is left open starts with a quote or a comment. -/

namespace ZeroAlloc.Lexis

/-- The characters that quotes and comments start with. -/
def openingMarks : List Char := ['"', '\'', '/']

namespace Shape

/-- No line ends within the shape. -/
def StaysOnLine (s : Shape) : Prop :=
  ∀ cs n, s cs = some n → '\r' ∉ cs.take n ∧ '\n' ∉ cs.take n

/-- The shape ends with a character other than a carriage return. -/
def EndsPlainly (s : Shape) : Prop :=
  ∀ cs n, s cs = some n → ∃ init c, cs.take n = init ++ [c] ∧ c ≠ '\r'

/-- The shape covers a mark that quotes or comments start with. -/
def HoldsMark (s : Shape) : Prop :=
  ∀ cs n, s cs = some n → ∃ c ∈ cs.take n, c ∈ openingMarks

theorem exists_of_one {p : Char → Bool} {cs : List Char} {n : Nat} (h : one p cs = some n) :
    ∃ c rest, cs = c :: rest ∧ n = 1 ∧ p c = true := by
  cases cs with
  | nil => cases h
  | cons c cs =>
    rw [one_cons] at h
    split at h
    · cases h
      exact ⟨c, cs, rfl, rfl, ‹_›⟩
    · cases h

theorem exists_of_andThen {s t : Shape} {cs : List Char} {n : Nat} (h : s.andThen t cs = some n) :
    ∃ m k, s cs = some m ∧ t (cs.drop m) = some k ∧ n = m + k ∧
      cs.take n = cs.take m ++ (cs.drop m).take k := by
  obtain ⟨m, hm, h⟩ := Option.bind_eq_some_iff.1 h
  obtain ⟨k, hk, rfl⟩ := Option.map_eq_some_iff.1 h
  exact ⟨m, k, hm, hk, rfl, List.take_add⟩

theorem of_orElse {s t : Shape} {cs : List Char} {n : Nat} (h : s.orElse t cs = some n) :
    s cs = some n ∨ t cs = some n :=
  (Option.or_eq_some_iff.1 h).imp_right And.right

/-! ## Shapes within a line -/

theorem IsInline.staysOnLine {s : Shape} (h : s.IsInline) : s.StaysOnLine := by
  intro cs n hn
  induction h generalizing cs n with
  | @one p hreturn hfeed =>
    obtain ⟨c, rest, rfl, rfl, hc⟩ := exists_of_one hn
    constructor
    · rintro hmem
      obtain rfl : '\r' = c := by simpa using hmem
      rw [hreturn] at hc
      cases hc
    · rintro hmem
      obtain rfl : '\n' = c := by simpa using hmem
      rw [hfeed] at hc
      cases hc
  | @run p hreturn hfeed =>
    cases hn
    rw [Lexis.run, ← List.prefix_iff_eq_take.1 (List.takeWhile_prefix p)]
    constructor
    · intro hmem
      have := List.mem_takeWhile_imp hmem
      simp [hreturn] at this
    · intro hmem
      have := List.mem_takeWhile_imp hmem
      simp [hfeed] at this
  | andThen _ _ ihs iht =>
    obtain ⟨m, k, hm, hk, rfl, htake⟩ := exists_of_andThen hn
    obtain ⟨hsreturn, hsfeed⟩ := ihs cs m hm
    obtain ⟨htreturn, htfeed⟩ := iht _ k hk
    rw [htake, List.mem_append, List.mem_append, not_or, not_or]
    exact ⟨⟨hsreturn, htreturn⟩, hsfeed, htfeed⟩
  | orElse _ _ ihs iht => exact (of_orElse hn).elim (ihs cs n) (iht cs n)
  | @toTotal f _ ih =>
    cases hn
    by_cases hzero : f cs = 0
    · simp [hzero]
    · exact ih cs _ (if_neg hzero)

/-! ## Ends -/

namespace EndsPlainly

theorem one {p : Char → Bool} (hreturn : p '\r' = false) : (one p).EndsPlainly := by
  intro cs n h
  obtain ⟨c, rest, rfl, rfl, hc⟩ := exists_of_one h
  refine ⟨[], c, rfl, ?_⟩
  rintro rfl
  rw [hreturn] at hc
  cases hc

theorem andThen {t : Shape} (s : Shape) (ht : t.EndsPlainly) : (s.andThen t).EndsPlainly := by
  intro cs n h
  obtain ⟨m, k, _, hk, rfl, htake⟩ := exists_of_andThen h
  obtain ⟨init, c, hlast, hc⟩ := ht _ k hk
  exact ⟨cs.take m ++ init, c, by rw [htake, hlast, List.append_assoc], hc⟩

theorem orElse {s t : Shape} (hs : s.EndsPlainly) (ht : t.EndsPlainly) :
    (s.orElse t).EndsPlainly :=
  fun cs n h => (of_orElse h).elim (hs cs n) (ht cs n)

end EndsPlainly

/-! ## Marks -/

namespace HoldsMark

theorem one {p : Char → Bool} (h : ∀ c, p c = true → c ∈ openingMarks) : (one p).HoldsMark := by
  intro cs n hn
  obtain ⟨c, rest, rfl, rfl, hc⟩ := exists_of_one hn
  exact ⟨c, List.mem_cons_self, h c hc⟩

theorem andThen_left {s : Shape} (hs : s.HoldsMark) (t : Shape) : (s.andThen t).HoldsMark := by
  intro cs n h
  obtain ⟨m, k, hm, _, rfl, htake⟩ := exists_of_andThen h
  obtain ⟨c, hc, hmark⟩ := hs cs m hm
  exact ⟨c, by rw [htake]; exact List.mem_append_left _ hc, hmark⟩

theorem andThen_right {t : Shape} (s : Shape) (ht : t.HoldsMark) : (s.andThen t).HoldsMark := by
  intro cs n h
  obtain ⟨m, k, _, hk, rfl, htake⟩ := exists_of_andThen h
  obtain ⟨c, hc, hmark⟩ := ht _ k hk
  exact ⟨c, by rw [htake]; exact List.mem_append_right _ hc, hmark⟩

end HoldsMark

end Shape

open Shape

/-! ## Bodies -/

theorem endsPlainly_escapedBody {quote : Char} (h : quote ≠ '\r') :
    EndsPlainly (escapedBody quote) := by
  intro cs n hn
  fun_induction escapedBody quote cs generalizing n with
  | case1 => cases hn
  | case2 =>
    cases hn
    exact ⟨[], quote, rfl, h⟩
  | case3 => cases hn
  | case4 =>
    cases hn
    exact ⟨[], quote, rfl, h⟩
  | case5 => cases hn
  | case6 => cases hn
  | case7 d cs _ _ _ ih =>
    obtain ⟨m, hm, rfl⟩ := Option.map_eq_some_iff.1 hn
    obtain ⟨init, c, hlast, hc⟩ := ih m hm
    exact ⟨'\\' :: d :: init, c, by simp [hlast], hc⟩
  | case8 c d cs _ _ _ ih =>
    obtain ⟨m, hm, rfl⟩ := Option.map_eq_some_iff.1 hn
    obtain ⟨init, last, hlast, hc⟩ := ih m hm
    exact ⟨c :: init, last, by simp [hlast], hc⟩

theorem endsPlainly_doubledBody (allowed : Char → Bool) : EndsPlainly (doubledBody allowed) := by
  intro cs n hn
  fun_induction doubledBody allowed cs generalizing n with
  | case1 => cases hn
  | case2 =>
    cases hn
    exact ⟨[], '"', rfl, by decide⟩
  | case3 => cases hn
  | case4 cs m hm ih =>
    cases hn
    obtain ⟨init, c, hlast, hc⟩ := ih m hm
    exact ⟨'"' :: '"' :: init, c, by simp [hlast], hc⟩
  | case5 =>
    cases hn
    exact ⟨[], '"', rfl, by decide⟩
  | case6 =>
    cases hn
    exact ⟨[], '"', rfl, by decide⟩
  | case7 c d cs _ _ ih =>
    obtain ⟨m, hm, rfl⟩ := Option.map_eq_some_iff.1 hn
    obtain ⟨init, last, hlast, hc⟩ := ih m hm
    exact ⟨c :: init, last, by simp [hlast], hc⟩
  | case8 => cases hn

/-! ## Rules -/

/-- What the rule covers, by the class of its lexemes. -/
def Rule.KeepsToLines (rule : Rule) : Prop :=
  match rule.kind with
  | none => True
  | some .ident => (ofExtent rule.extent).StaysOnLine
  | some .number => (ofExtent rule.extent).StaysOnLine
  | some .punct => (ofExtent rule.extent).StaysOnLine
  | some .str => (ofExtent rule.extent).EndsPlainly
  | some .newline => ofExtent rule.extent = one (· == '\n')
  | some .error => (ofExtent rule.extent).HoldsMark

namespace CSharp

theorem endsPlainly_verbatimString : (ofExtent verbatimString).EndsPlainly := by
  rw [ofExtent_verbatimString]
  exact .andThen _ (endsPlainly_doubledBody _)

theorem endsPlainly_string : (ofExtent string).EndsPlainly := by
  rw [ofExtent_string]
  exact .andThen _ (endsPlainly_escapedBody (by decide))

theorem endsPlainly_charLiteral : (ofExtent charLiteral).EndsPlainly := by
  rw [ofExtent_charLiteral]
  exact .andThen _ (.andThen _ (endsPlainly_escapedBody (by decide)))

theorem holdsMark_openComment : (ofExtent openComment).HoldsMark := by
  rw [ofExtent_openComment]
  exact .andThen_left (.one (by simp [openingMarks])) _

theorem holdsMark_brokenLiteral : (ofExtent brokenLiteral).HoldsMark := by
  rw [ofExtent_brokenLiteral]
  exact .andThen_right _ (.andThen_left (.one (by simp [openingMarks])) _)

theorem keepsToLines_of_mem_rules {rule : Rule} (h : rule ∈ rules) : rule.KeepsToLines := by
  simp only [rules, List.mem_cons, List.not_mem_nil, or_false] at h
  rcases h with rfl | rfl | rfl | rfl | rfl | rfl | rfl | rfl | rfl | rfl | rfl | rfl | rfl | rfl
  · trivial
  · trivial
  · trivial
  · exact holdsMark_openComment
  · trivial
  · exact endsPlainly_verbatimString
  · exact endsPlainly_string
  · exact endsPlainly_charLiteral
  · exact holdsMark_brokenLiteral
  · exact (isInline_radixNumber (by decide) (by decide)).staysOnLine
  · exact (isInline_radixNumber (by decide) (by decide)).staysOnLine
  · exact isInline_number.staysOnLine
  · exact isInline_identifier.staysOnLine
  · exact isInline_punctuation.staysOnLine

end CSharp

namespace VisualBasic

theorem endsPlainly_date : (ofExtent date).EndsPlainly := by
  rw [ofExtent_date]
  exact .andThen _ (.andThen _ (.andThen _ (.one (by decide))))

theorem endsPlainly_string : (ofExtent string).EndsPlainly := by
  rw [ofExtent_string]
  exact .andThen _ (.orElse (.andThen _ (.one (by decide))) (endsPlainly_doubledBody _))

theorem holdsMark_brokenString : (ofExtent brokenString).HoldsMark := by
  rw [ofExtent_brokenString]
  exact .andThen_left (.one (by simp [openingMarks])) _

theorem keepsToLines_of_mem_rules {rule : Rule} (h : rule ∈ rules) : rule.KeepsToLines := by
  simp only [rules, List.mem_cons, List.not_mem_nil, or_false] at h
  rcases h with rfl | rfl | rfl | rfl | rfl | rfl | rfl | rfl | rfl | rfl | rfl | rfl | rfl | rfl |
    rfl | rfl
  · trivial
  · trivial
  · trivial
  · trivial
  · exact ofExtent_newline
  · exact endsPlainly_date
  · trivial
  · exact endsPlainly_string
  · exact holdsMark_brokenString
  · exact (isInline_radixNumber (by decide) (by decide)).staysOnLine
  · exact (isInline_radixNumber (by decide) (by decide)).staysOnLine
  · exact (isInline_radixNumber (by decide) (by decide)).staysOnLine
  · exact isInline_number.staysOnLine
  · exact isInline_bracketedName.staysOnLine
  · exact isInline_name.staysOnLine
  · exact isInline_punctuation.staysOnLine

end VisualBasic

end ZeroAlloc.Lexis
