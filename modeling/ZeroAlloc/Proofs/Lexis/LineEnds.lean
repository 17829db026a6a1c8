import ZeroAlloc.Proofs.Lexis.Tiling
import ZeroAlloc.Proofs.Lexis.Shape
import ZeroAlloc.Proofs.Text.LineEnds
set_option autoImplicit false

/-! # Line ends in the lexis

Carriage returns at the ends of lines are blank to both languages, but comments and literals may run
over them. -/

namespace ZeroAlloc.Lexis

open Text (HasReturns withoutReturns withoutReturns_cons withoutReturns_return)

/-- The number of characters other than carriage returns among the first ones of a text. -/
def plainLength (cs : List Char) (n : Nat) : Nat :=
  (withoutReturns (cs.take n)).length

section Length

variable {c : Char} (cs : List Char) (n m : Nat)

@[simp] theorem plainLength_zero : plainLength cs 0 = 0 := rfl

@[simp] theorem plainLength_return : plainLength ('\r' :: cs) (n + 1) = plainLength cs n := rfl

theorem plainLength_cons (h : c ≠ '\r') : plainLength (c :: cs) (n + 1) = plainLength cs n + 1 := by
  rw [plainLength, List.take_succ_cons, withoutReturns_cons h]
  rfl

theorem plainLength_add :
    plainLength cs (n + m) = plainLength cs n + plainLength (cs.drop n) m := by
  rw [plainLength, List.take_add, Text.withoutReturns_append, List.length_append]
  rfl

/-- What stands behind corresponding pieces corresponds. -/
theorem drop_plainLength :
    (withoutReturns cs).drop (plainLength cs n) = withoutReturns (cs.drop n) := by
  have hsplit := Text.withoutReturns_append (cs.take n) (cs.drop n)
  rw [List.take_append_drop] at hsplit
  rw [hsplit]
  exact List.drop_left

end Length

/-- A carriage return at the start has its line feed behind it. -/
theorem exists_feed {cs : List Char} (h : HasReturns ('\r' :: cs)) : ∃ rest, cs = '\n' :: rest :=
  List.head?_eq_some_iff.1 (h.1.1 rfl)

/-! ## Shapes -/

namespace Shape

/-- The shape covers in a text with carriage returns what it covers in the text without them. -/
def IgnoresReturns (s : Shape) : Prop :=
  ∀ cs, HasReturns cs → s (withoutReturns cs) = (s cs).map (plainLength cs)

namespace IgnoresReturns

theorem one {p : Char → Bool} (hreturn : p '\r' = false) (hfeed : p '\n' = false) :
    (one p).IgnoresReturns := by
  intro cs hcs
  cases cs with
  | nil => rfl
  | cons c cs =>
    by_cases hc : c = '\r'
    · subst hc
      obtain ⟨rest, rfl⟩ := exists_feed hcs
      rw [withoutReturns_return, withoutReturns_cons (by decide)]
      simp [hreturn, hfeed]
    · rw [withoutReturns_cons hc]
      by_cases hp : p c = true <;> simp [hp, plainLength_cons cs 0 hc]

theorem total {f : List Char → Nat}
    (h : ∀ cs, HasReturns cs → f (withoutReturns cs) = plainLength cs (f cs)) :
    (total f).IgnoresReturns :=
  fun cs hcs => congrArg some (h cs hcs)

theorem extent {f : List Char → Nat} (h : (ofExtent f).IgnoresReturns) {cs : List Char}
    (hcs : HasReturns cs) : f (withoutReturns cs) = plainLength cs (f cs) := by
  have hshape := h cs hcs
  unfold ofExtent at hshape
  by_cases hzero : f cs = 0
  · simpa [hzero] using hshape
  · rw [if_neg hzero, Option.map_some] at hshape
    split at hshape
    · cases hshape
    · exact Option.some.inj hshape

theorem run {p : Char → Bool} (h : p '\r' = false → p '\n' = false) :
    (Shape.total (run p)).IgnoresReturns := by
  refine total fun cs hcs => ?_
  induction cs with
  | nil => rfl
  | cons c cs ih =>
    have ih := ih hcs.2
    by_cases hc : c = '\r'
    · subst hc
      obtain ⟨rest, rfl⟩ := exists_feed hcs
      cases hreturn : p '\r' with
      | true => simpa [Lexis.run, hreturn] using ih
      | false =>
        rw [withoutReturns_return, withoutReturns_cons (by decide)]
        simp [Lexis.run, hreturn, h hreturn]
    · rw [withoutReturns_cons hc]
      by_cases hp : p c = true
      · simpa [Lexis.run, hp, plainLength_cons _ _ hc] using ih
      · simp [Lexis.run, hp]

theorem notBefore {p : Char → Bool} (h : p '\r' = p '\n') : (notBefore p).IgnoresReturns := by
  intro cs hcs
  cases cs with
  | nil => rfl
  | cons c cs =>
    by_cases hc : c = '\r'
    · subst hc
      obtain ⟨rest, rfl⟩ := exists_feed hcs
      rw [withoutReturns_return, withoutReturns_cons (by decide)]
      cases hp : p '\n' <;> simp [Shape.notBefore, h, hp]
    · rw [withoutReturns_cons hc]
      cases hp : p c <;> simp [Shape.notBefore, hp]

theorem andThen {s t : Shape} (hs : s.IgnoresReturns) (ht : t.IgnoresReturns) :
    (s.andThen t).IgnoresReturns := by
  intro cs hcs
  rw [Shape.andThen, Shape.andThen, hs cs hcs]
  cases s cs with
  | none => rfl
  | some n =>
    simp only [Option.map_some, Option.bind_some, drop_plainLength, ht _ (hcs.drop n),
      Option.map_map]
    cases t (cs.drop n) with
    | none => rfl
    | some m => simp [plainLength_add]

theorem orElse {s t : Shape} (hs : s.IgnoresReturns) (ht : t.IgnoresReturns) :
    (s.orElse t).IgnoresReturns := by
  intro cs hcs
  rw [Shape.orElse, Shape.orElse, hs cs hcs, ht cs hcs, Option.map_or]

theorem toTotal {f : List Char → Nat} (h : (ofExtent f).IgnoresReturns) :
    (Shape.total f).IgnoresReturns :=
  total fun _ hcs => h.extent hcs

end IgnoresReturns

theorem IsInline.ignoresReturns {s : Shape} (h : s.IsInline) : s.IgnoresReturns := by
  induction h with
  | one hreturn hfeed => exact .one hreturn hfeed
  | run _ hfeed => exact .run fun _ => hfeed
  | andThen _ _ ihs iht => exact .andThen ihs iht
  | orElse _ _ ihs iht => exact .orElse ihs iht
  | toTotal _ ih => exact ih.toTotal

end Shape

open Shape

/-! ## Bodies -/

theorem ignoresReturns_length : (total List.length).IgnoresReturns := by
  refine .total fun cs _ => ?_
  rw [plainLength, List.take_length]

theorem ignoresReturns_restOfLine : (total restOfLine).IgnoresReturns :=
  .run (by decide)

/-- Taking carriage returns out brings no mark to the front. -/
theorem head?_withoutReturns_iff {d : Char} (hreturn : d ≠ '\r') (hfeed : d ≠ '\n') {cs : List Char}
    (h : HasReturns cs) : (withoutReturns cs).head? = some d ↔ cs.head? = some d := by
  cases cs with
  | nil => rfl
  | cons c cs =>
    by_cases hc : c = '\r'
    · subst hc
      obtain ⟨rest, rfl⟩ := exists_feed h
      rw [withoutReturns_return, withoutReturns_cons (by decide)]
      simp [Ne.symm hreturn, Ne.symm hfeed]
    · rw [withoutReturns_cons hc]
      simp

theorem commentBody_cons (c : Char) (cs : List Char) :
    commentBody (c :: cs) =
      if c = '*' ∧ cs.head? = some '/' then some 2 else (commentBody cs).map (· + 1) := by
  by_cases hc : c = '*' ∧ cs.head? = some '/'
  · obtain ⟨rfl, hcs⟩ := hc
    obtain ⟨rest, rfl⟩ := List.head?_eq_some_iff.1 hcs
    rfl
  · rw [if_neg hc, commentBody]
    rintro rest rfl rfl
    exact hc ⟨rfl, rfl⟩

theorem ignoresReturns_commentBody : IgnoresReturns commentBody := by
  intro cs hcs
  induction cs with
  | nil => rfl
  | cons c cs ih =>
    have ih := ih hcs.2
    by_cases hc : c = '\r'
    · subst hc
      rw [withoutReturns_return, ih, commentBody_cons, if_neg (by simp), Option.map_map]
      rfl
    · have hslash := head?_withoutReturns_iff (d := '/') (by decide) (by decide) hcs.2
      rw [withoutReturns_cons hc, commentBody_cons, commentBody_cons, ih]
      simp only [hslash]
      split
      · rename_i hend
        obtain ⟨rest, rfl⟩ := List.head?_eq_some_iff.1 hend.2
        rw [Option.map_some, plainLength_cons _ _ hc, plainLength_cons _ _ (by decide)]
        rfl
      · simp [Function.comp_def, plainLength_cons _ _ hc]

/-- A single character of a text with carriage returns is none of them. -/
theorem withoutReturns_singleton {c : Char} (h : HasReturns [c]) : withoutReturns [c] = [c] := by
  have hc : c ≠ '\r' := fun hc => by simpa using h.1.1 hc
  exact withoutReturns_cons hc []

theorem escapedBody_quote (quote : Char) (cs : List Char) :
    escapedBody quote (quote :: cs) = some 1 := by
  cases cs <;> simp [escapedBody]

theorem escapedBody_feed {quote : Char} (h : '\n' ≠ quote) (cs : List Char) :
    escapedBody quote ('\n' :: cs) = none := by
  cases cs <;> simp [escapedBody, h]

theorem escapedBody_plain {quote c : Char} (hquote : c ≠ quote) (hfeed : c ≠ '\n')
    (hescape : c ≠ '\\') (cs : List Char) :
    escapedBody quote (c :: cs) = (escapedBody quote cs).map (· + 1) := by
  cases cs <;> simp [escapedBody, hquote, hfeed, hescape]

theorem ignoresReturns_escapedBody {quote : Char} (hreturn : quote ≠ '\r') (hfeed : '\n' ≠ quote) :
    IgnoresReturns (escapedBody quote) := by
  intro cs hcs
  fun_induction escapedBody quote cs with
  | case1 => rfl
  | case2 =>
    rw [withoutReturns_singleton hcs, escapedBody_quote, Option.map_some,
      plainLength_cons _ _ hreturn]
    rfl
  | case3 c hc =>
    rw [withoutReturns_singleton hcs, escapedBody, if_neg hc]
    rfl
  | case4 d cs =>
    rw [withoutReturns_cons hreturn, escapedBody_quote, Option.map_some,
      plainLength_cons _ _ hreturn]
    rfl
  | case5 d cs hc =>
    rw [withoutReturns_cons (by decide), escapedBody_feed hfeed]
    rfl
  | case6 cs => exact absurd (hcs.1.2 rfl) (by decide)
  | case7 d cs hd hquote _ ih =>
    rw [withoutReturns_cons (by decide)]
    by_cases hd' : d = '\r'
    · -- the escape meets the line feed in both texts
      subst hd'
      obtain ⟨rest, rfl⟩ := exists_feed hcs.2
      rw [withoutReturns_return, withoutReturns_cons (by decide), escapedBody_feed hfeed]
      simp [escapedBody, hquote]
    · rw [withoutReturns_cons hd', escapedBody, if_neg hquote, if_neg (by decide), if_pos rfl,
        if_neg hd, ih hcs.2.2]
      simp [Function.comp_def, plainLength_cons _ _ hd',
        plainLength_cons (c := '\\') _ _ (by decide)]
  | case8 c d cs hquote hc hescape ih =>
    by_cases hc' : c = '\r'
    · subst hc'
      obtain ⟨rest, hrest⟩ := exists_feed hcs
      rw [hrest, withoutReturns_return, withoutReturns_cons (by decide), escapedBody_feed hfeed,
        escapedBody_feed hfeed]
      rfl
    · rw [withoutReturns_cons hc', escapedBody_plain hquote hc hescape, ih hcs.2]
      simp [Function.comp_def, plainLength_cons _ _ hc']

theorem doubledBody_plain {c : Char} (hc : c ≠ '"') (allowed : Char → Bool) (cs : List Char) :
    doubledBody allowed (c :: cs) =
      if allowed c then (doubledBody allowed cs).map (· + 1) else none := by
  cases cs <;> simp [doubledBody, hc]

theorem doubledBody_close {cs : List Char} (h : cs.head? ≠ some '"') (allowed : Char → Bool) :
    doubledBody allowed ('"' :: cs) = some 1 := by
  cases cs with
  | nil => simp [doubledBody]
  | cons c cs => simp_all [doubledBody]

theorem ignoresReturns_doubledBody {allowed : Char → Bool} (h : allowed '\r' = true) :
    IgnoresReturns (doubledBody allowed) := by
  intro cs hcs
  fun_induction doubledBody allowed cs with
  | case1 => rfl
  | case2 => rfl
  | case3 c hc =>
    rw [withoutReturns_singleton hcs, doubledBody, if_neg hc]
    rfl
  | case4 cs n hbody ih =>
    rw [withoutReturns_cons (by decide), withoutReturns_cons (by decide), doubledBody, if_pos rfl,
      if_pos rfl, ih hcs.2.2, hbody]
    simp [plainLength_cons (c := '"') _ _ (by decide)]
  | case5 cs hbody ih =>
    rw [withoutReturns_cons (by decide), withoutReturns_cons (by decide), doubledBody, if_pos rfl,
      if_pos rfl, ih hcs.2.2, hbody]
    rfl
  | case6 d cs hd =>
    have hhead : (withoutReturns (d :: cs)).head? ≠ some '"' := by
      rw [ne_eq, head?_withoutReturns_iff (by decide) (by decide) hcs.2]
      simpa using hd
    rw [withoutReturns_cons (by decide), doubledBody_close hhead]
    rfl
  | case7 c d cs hc hallowed ih =>
    by_cases hc' : c = '\r'
    · subst hc'
      rw [withoutReturns_return, ih hcs.2, Option.map_map]
      rfl
    · rw [withoutReturns_cons hc', doubledBody_plain hc, if_pos hallowed, ih hcs.2]
      simp [Function.comp_def, plainLength_cons _ _ hc']
  | case8 c d cs hc hallowed =>
    have hc' : c ≠ '\r' := by
      rintro rfl
      exact hallowed h
    rw [withoutReturns_cons hc', doubledBody_plain hc, if_neg hallowed]
    rfl

/-! ## Rules -/

/-- The rule covers in a text with carriage returns what it covers in the text without them, but
perhaps not where the text starts with one. -/
def Rule.IgnoresReturns (rule : Rule) : Prop :=
  ∀ cs, HasReturns cs → cs.head? ≠ some '\r' →
    rule.extent (withoutReturns cs) = plainLength cs (rule.extent cs)

theorem Rule.IgnoresReturns.of_shape {kind : Option LexemeKind} {f : List Char → Nat}
    (h : (ofExtent f).IgnoresReturns) : Rule.IgnoresReturns ⟨kind, f⟩ :=
  fun _ hcs _ => h.extent hcs

namespace CSharp

theorem ignoresReturns_of_mem_rules {rule : Rule} (h : rule ∈ rules) : rule.IgnoresReturns := by
  have hslash : (one (· == '/')).IgnoresReturns := .one (by decide) (by decide)
  have hstar : (one (· == '*')).IgnoresReturns := .one (by decide) (by decide)
  simp only [rules, List.mem_cons, List.not_mem_nil, or_false] at h
  rcases h with rfl | rfl | rfl | rfl | rfl | rfl | rfl | rfl | rfl | rfl | rfl | rfl | rfl | rfl
  · exact fun cs hcs _ => Option.some.inj (IgnoresReturns.run (by decide) cs hcs)
  · refine .of_shape ?_
    rw [ofExtent_lineComment]
    exact .andThen hslash (.andThen hslash ignoresReturns_restOfLine)
  · refine .of_shape ?_
    rw [ofExtent_blockComment]
    exact .andThen hslash (.andThen hstar ignoresReturns_commentBody)
  · refine .of_shape ?_
    rw [ofExtent_openComment]
    exact .andThen hslash (.andThen hstar ignoresReturns_length)
  · refine .of_shape ?_
    rw [ofExtent_directive]
    exact .andThen (.one (by decide) (by decide)) ignoresReturns_restOfLine
  · refine .of_shape ?_
    rw [ofExtent_verbatimString]
    exact .andThen isInline_verbatimOpening.ignoresReturns (ignoresReturns_doubledBody rfl)
  · refine .of_shape ?_
    rw [ofExtent_string]
    exact .andThen isInline_stringOpening.ignoresReturns
      (ignoresReturns_escapedBody (by decide) (by decide))
  · refine .of_shape ?_
    rw [ofExtent_charLiteral]
    exact .andThen (.one (by decide) (by decide)) (.andThen (.notBefore (by decide))
      (ignoresReturns_escapedBody (by decide) (by decide)))
  · refine .of_shape ?_
    rw [ofExtent_brokenLiteral]
    exact .andThen (.run (by decide))
      (.andThen (.one (by decide) (by decide)) ignoresReturns_restOfLine)
  · exact .of_shape (isInline_radixNumber (by decide) (by decide)).ignoresReturns
  · exact .of_shape (isInline_radixNumber (by decide) (by decide)).ignoresReturns
  · exact .of_shape isInline_number.ignoresReturns
  · exact .of_shape isInline_identifier.ignoresReturns
  · exact .of_shape isInline_punctuation.ignoresReturns

end CSharp

namespace VisualBasic

theorem ignoresReturns_lineEnd : lineEnd.IgnoresReturns := by
  intro cs hcs
  rcases cs with _ | ⟨c, cs⟩
  · rfl
  · by_cases hc : c = '\r'
    · subst hc
      obtain ⟨rest, rfl⟩ := exists_feed hcs
      rfl
    · rw [withoutReturns_cons hc]
      by_cases hfeed : c = '\n'
      · subst hfeed
        rfl
      · simp [lineEnd, hc, hfeed]

theorem ignoresReturns_of_mem_rules {rule : Rule} (h : rule ∈ rules) : rule.IgnoresReturns := by
  have hbody : IgnoresReturns (doubledBody (· ≠ '\n')) := ignoresReturns_doubledBody (by decide)
  simp only [rules, List.mem_cons, List.not_mem_nil, or_false] at h
  rcases h with rfl | rfl | rfl | rfl | rfl | rfl | rfl | rfl | rfl | rfl | rfl | rfl | rfl | rfl |
    rfl | rfl
  · exact fun cs hcs _ => Option.some.inj (IgnoresReturns.run (by decide) cs hcs)
  · refine .of_shape ?_
    rw [ofExtent_continuation]
    exact .andThen (.one (by decide) (by decide))
      (.andThen (.run (by decide)) ignoresReturns_lineEnd)
  · refine .of_shape ?_
    rw [ofExtent_comment]
    exact .andThen (.one (by decide) (by decide)) ignoresReturns_restOfLine
  · refine .of_shape ?_
    rw [ofExtent_remark]
    exact .andThen (.one (by decide) (by decide)) (.andThen (.one (by decide) (by decide))
      (.andThen (.one (by decide) (by decide))
        (.andThen (.notBefore (by decide)) ignoresReturns_restOfLine)))
  · intro cs hcs hfirst
    rcases cs with _ | ⟨c, cs⟩
    · rfl
    · have hc : c ≠ '\r' := by simpa using hfirst
      rw [withoutReturns_cons hc]
      by_cases hfeed : c = '\n'
      · subst hfeed
        rfl
      · simp [newline, hfeed]
  · refine .of_shape ?_
    rw [ofExtent_date]
    exact .andThen (.one (by decide) (by decide)) (.andThen (.one (by decide) (by decide))
      (.andThen (.run (by decide)) (.one (by decide) (by decide))))
  · refine .of_shape ?_
    rw [ofExtent_directive]
    exact .andThen (.one (by decide) (by decide)) ignoresReturns_restOfLine
  · refine .of_shape ?_
    rw [ofExtent_string]
    exact .andThen (.one (by decide) (by decide))
      (.orElse (.andThen hbody (.one (by decide) (by decide))) hbody)
  · refine .of_shape ?_
    rw [ofExtent_brokenString]
    exact .andThen (.one (by decide) (by decide)) ignoresReturns_restOfLine
  · exact .of_shape (isInline_radixNumber (by decide) (by decide)).ignoresReturns
  · exact .of_shape (isInline_radixNumber (by decide) (by decide)).ignoresReturns
  · exact .of_shape (isInline_radixNumber (by decide) (by decide)).ignoresReturns
  · exact .of_shape isInline_number.ignoresReturns
  · exact .of_shape isInline_bracketedName.ignoresReturns
  · exact .of_shape isInline_name.ignoresReturns
  · exact .of_shape isInline_punctuation.ignoresReturns

end VisualBasic

end ZeroAlloc.Lexis
