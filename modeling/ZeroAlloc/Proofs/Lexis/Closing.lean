import ZeroAlloc.Language
import ZeroAlloc.Proofs.Lexis.Coverage
import ZeroAlloc.Proofs.Lexis.LineEnds
import ZeroAlloc.Proofs.Lexis.Tiling
set_option autoImplicit false

/-! # Marks behind a text

A type argument stands in front of brackets. These are marks that no lexeme of the argument goes on
with: most shapes cover as much in front of them as at the end of the text (`Shape.IsFirm`), and a
comment or directive that would run to the end of the text takes them with it
(`Shape.IsOpenEnded`). So no lexeme becomes malformed (`isError_append_of_isClosing`). -/

namespace ZeroAlloc.Lexis

/-- The marks between which a call has its arguments. -/
def closingMarks : List Char := ['>', '(', ')']

/-- The text has such marks only. -/
def IsClosing (more : List Char) : Prop :=
  ∀ c ∈ more, c ∈ closingMarks

variable {more : List Char}

theorem eq_false_of_mem_closingMarks {p : Char → Bool} {c : Char} (hp : closingMarks.any p = false)
    (hc : c ∈ closingMarks) : p c = false :=
  Bool.not_eq_true _ ▸ List.any_eq_false.1 hp c hc

theorem IsClosing.eq_false {p : Char → Bool} (hp : closingMarks.any p = false)
    (h : IsClosing more) : more.head?.any p = false := by
  cases more with
  | nil => rfl
  | cons c more => exact eq_false_of_mem_closingMarks hp (h c List.mem_cons_self)

theorem IsClosing.ne {c d : Char} (h : IsClosing (c :: more)) (hd : d ∉ closingMarks) : c ≠ d :=
  ne_of_mem_of_not_mem (h c List.mem_cons_self) hd

theorem run_append_of_isClosing {p : Char → Bool} (hp : closingMarks.any p = false)
    (h : IsClosing more) (cs : List Char) : run p (cs ++ more) = run p cs := by
  rw [run, run, List.takeWhile_append]
  split
  · have hnil : more.takeWhile p = [] := by
      rw [List.takeWhile_eq_nil_iff]
      intro hpos
      have hfalse := eq_false_of_mem_closingMarks hp (h _ (List.getElem_mem hpos))
      simp [hfalse]
    rename_i hall
    rw [hnil, List.append_nil, hall]
  · rfl

theorem run_le_length (p : Char → Bool) (cs : List Char) : run p cs ≤ cs.length :=
  (List.takeWhile_sublist p).length_le

namespace Shape

/-- The shape covers no more characters than there are. -/
def IsBounded (s : Shape) : Prop :=
  ∀ cs n, s cs = some n → n ≤ cs.length

/-- The shape covers as much in front of closing marks as at the end of the text. -/
structure IsFirm (s : Shape) : Prop where
  bounded : s.IsBounded
  append : ∀ cs {more}, IsClosing more → s (cs ++ more) = s cs

/-- The shape covers as much in front of closing marks as at the end of the text, or all the text
with and without them. -/
structure IsOpenEnded (s : Shape) : Prop where
  bounded : s.IsBounded
  append : ∀ cs {more}, IsClosing more → s (cs ++ more) = s cs ∨
    s cs = some cs.length ∧ s (cs ++ more) = some (cs ++ more).length

/-- The extent of a shape that is not there is zero. -/
theorem getD_ofExtent (f : List Char → Nat) (cs : List Char) : (ofExtent f cs).getD 0 = f cs := by
  rw [ofExtent]
  split
  · rename_i hzero
    rw [hzero]
    rfl
  · rfl

theorem extent_eq_extent {f : List Char → Nat} {cs ds : List Char}
    (h : ofExtent f cs = ofExtent f ds) : f cs = f ds := by
  rw [← getD_ofExtent f cs, h, getD_ofExtent]

theorem extent_eq_of_ofExtent {f : List Char → Nat} {cs : List Char} {n : Nat}
    (h : ofExtent f cs = some n) : f cs = n := by
  rw [← getD_ofExtent f cs, h]
  rfl

namespace IsBounded

theorem run (p : Char → Bool) : (total (run p)).IsBounded := by
  intro cs n h
  cases h
  exact run_le_length p cs

theorem andThen {s t : Shape} (hs : s.IsBounded) (ht : t.IsBounded) : (s.andThen t).IsBounded := by
  intro cs n h
  obtain ⟨m, k, hm, hk, rfl, -⟩ := exists_of_andThen h
  have hcovered := hs cs m hm
  have hrest := ht _ k hk
  rw [List.length_drop] at hrest
  omega

end IsBounded

namespace IsFirm

theorem one {p : Char → Bool} (hp : closingMarks.any p = false) : (one p).IsFirm where
  bounded cs n h := by
    obtain ⟨c, rest, rfl, rfl, -⟩ := exists_of_one h
    exact Nat.le_add_left 1 _
  append cs more hmore := by
    cases cs with
    | nil =>
      cases more with
      | nil => rfl
      | cons c more =>
        rw [List.nil_append, one_cons,
          eq_false_of_mem_closingMarks hp (hmore c List.mem_cons_self)]
        rfl
    | cons c cs => rfl

theorem run {p : Char → Bool} (hp : closingMarks.any p = false) :
    (total (run p)).IsFirm where
  bounded := .run p
  append cs _ hmore := congrArg some (run_append_of_isClosing hp hmore cs)

theorem notBefore {p : Char → Bool} (hp : closingMarks.any p = false) :
    (notBefore p).IsFirm where
  bounded cs n h := by
    rw [Shape.notBefore] at h
    split at h
    · cases h
    · cases h
      exact Nat.zero_le _
  append cs more hmore := by
    cases cs with
    | nil =>
      rw [Shape.notBefore, List.nil_append, hmore.eq_false hp]
      rfl
    | cons c cs => rfl

theorem andThen {s t : Shape} (hs : s.IsFirm) (ht : t.IsFirm) : (s.andThen t).IsFirm where
  bounded := hs.bounded.andThen ht.bounded
  append cs more hmore := by
    rw [Shape.andThen, Shape.andThen, hs.append cs hmore]
    cases hm : s cs with
    | none => rfl
    | some m =>
      rw [Option.bind_some, Option.bind_some,
        List.drop_append_of_le_length (hs.bounded cs m hm), ht.append _ hmore]

theorem orElse {s t : Shape} (hs : s.IsFirm) (ht : t.IsFirm) : (s.orElse t).IsFirm where
  bounded cs n h := (of_orElse h).elim (hs.bounded cs n) (ht.bounded cs n)
  append cs _ hmore := by rw [Shape.orElse, Shape.orElse, hs.append cs hmore, ht.append cs hmore]

theorem extent_append {f : List Char → Nat} (h : (ofExtent f).IsFirm) (cs : List Char)
    (hmore : IsClosing more) : f (cs ++ more) = f cs :=
  extent_eq_extent (h.append cs hmore)

theorem toTotal {f : List Char → Nat} (h : (ofExtent f).IsFirm) : (total f).IsFirm where
  bounded cs n hn := by
    cases hn
    by_cases hzero : f cs = 0
    · rw [hzero]
      exact Nat.zero_le _
    · exact h.bounded cs _ (if_neg hzero)
  append cs _ hmore := congrArg some (h.extent_append cs hmore)

/-- A run of characters that ends with a mark does not end at closing marks. -/
theorem run_andThen_one (p : Char → Bool) {q : Char → Bool}
    (hq : closingMarks.any q = false) :
    ((total (Lexis.run p)).andThen (Shape.one q)).IsFirm where
  bounded := (IsBounded.run p).andThen (one hq).bounded
  append cs more hmore := by
    rw [total_andThen, total_andThen]
    by_cases hall : (cs.takeWhile p).length = cs.length
    · -- the run goes on to the end of the text and into the marks
      have hrun : Lexis.run p (cs ++ more) = cs.length + Lexis.run p more := by
        rw [Lexis.run, List.takeWhile_append, if_pos hall, List.length_append]
        rfl
      have hmarks : IsClosing (more.drop (Lexis.run p more)) := fun c hc =>
        hmore c (List.mem_of_mem_drop hc)
      have hend : Shape.one q (more.drop (Lexis.run p more)) = none :=
        (one hq).append [] hmarks
      have hnil : cs.drop (Lexis.run p cs) = [] := by
        rw [Lexis.run, hall, List.drop_length]
      rw [hrun, ← List.drop_drop, List.drop_left, hend, hnil]
      rfl
    · have hrun : Lexis.run p (cs ++ more) = Lexis.run p cs := by
        rw [Lexis.run, List.takeWhile_append, if_neg hall]
        rfl
      rw [hrun, List.drop_append_of_le_length (run_le_length p cs),
        (one hq).append _ hmore]

end IsFirm

namespace IsOpenEnded

theorem andThen {s t : Shape} (hs : s.IsFirm) (ht : t.IsOpenEnded) :
    (s.andThen t).IsOpenEnded where
  bounded := hs.bounded.andThen ht.bounded
  append cs more hmore := by
    rw [Shape.andThen, Shape.andThen, hs.append cs hmore]
    cases hm : s cs with
    | none => exact .inl rfl
    | some m =>
      have hcovered := hs.bounded cs m hm
      rw [Option.bind_some, Option.bind_some, List.drop_append_of_le_length hcovered]
      rcases ht.append (cs.drop m) hmore with hsame | ⟨hend, hend'⟩
      · rw [hsame]
        exact .inl rfl
      · right
        rw [hend, hend', Option.map_some, Option.map_some, List.length_append, List.length_append,
          List.length_drop]
        exact ⟨congrArg some (by omega), congrArg some (by omega)⟩

theorem length : IsOpenEnded (total List.length) where
  bounded cs n h := by
    cases h
    exact Nat.le_refl _
  append _ _ _ := .inr ⟨rfl, rfl⟩

/-- The rest of the last line is the rest of the text. -/
theorem restOfLine : IsOpenEnded (total restOfLine) where
  bounded := .run _
  append cs more hmore := by
    rw [total, total, Lexis.restOfLine, Lexis.restOfLine, Lexis.run, Lexis.run,
      List.takeWhile_append]
    split
    · rename_i hall
      have hmarks : more.takeWhile (fun c => decide (c ≠ '\n')) = more := by
        rw [List.takeWhile_eq_self_iff]
        intro c hc
        have hfeed : c ≠ '\n' := ne_of_mem_of_not_mem (hmore c hc) (by decide)
        exact decide_eq_true hfeed
      right
      rw [hmarks, hall]
      exact ⟨rfl, rfl⟩
    · exact .inl rfl

end IsOpenEnded

end Shape

open Shape

/-! ## Bodies -/

theorem IsClosing.tail {c : Char} (h : IsClosing (c :: more)) : IsClosing more :=
  fun d hd => h d (List.mem_cons_of_mem c hd)

section EscapedBody

variable {quote : Char} (hquote : quote ∉ closingMarks)
include hquote

theorem escapedBody_of_isClosing (h : IsClosing more) : escapedBody quote more = none := by
  induction more with
  | nil => rfl
  | cons c more ih =>
    have hclose : c ≠ quote := h.ne hquote
    cases more with
    | nil => exact if_neg hclose
    | cons d more =>
      have hfeed : c ≠ '\n' := h.ne (by decide)
      have hback : c ≠ '\\' := h.ne (by decide)
      rw [escapedBody, if_neg hclose, if_neg hfeed, if_neg hback, ih h.tail]
      rfl

/-- A body that no quote closes is not closed by other marks. -/
theorem escapedBody_cons_of_isClosing {c : Char} (hc : c ≠ quote) (h : IsClosing more) :
    escapedBody quote (c :: more) = none := by
  cases more with
  | nil => exact if_neg hc
  | cons d more =>
    rw [escapedBody, if_neg hc, escapedBody_of_isClosing hquote h,
      escapedBody_of_isClosing hquote h.tail]
    simp

theorem isFirm_escapedBody : IsFirm (escapedBody quote) where
  bounded cs n h := by
    fun_induction escapedBody quote cs generalizing n with
    | case1 | case3 | case5 | case6 => cases h
    | case2 | case4 =>
      cases h
      exact Nat.le_add_left 1 _
    | case7 d cs _ _ _ ih | case8 c d cs _ _ _ ih =>
      obtain ⟨m, hm, rfl⟩ := Option.map_eq_some_iff.1 h
      exact Nat.add_le_add_right (ih m hm) _
  append cs more hmore := by
    fun_induction escapedBody quote cs with
    | case1 => exact escapedBody_of_isClosing hquote hmore
    | case2 => cases more <;> simp [escapedBody]
    | case3 c hc => exact escapedBody_cons_of_isClosing hquote hc hmore
    | case4 d cs => simp [escapedBody]
    | case5 d cs hc => simp [escapedBody, hc]
    | case6 cs hback => simp [escapedBody, hback]
    | case7 d cs hfeed hclose _ ih => simp [escapedBody, hclose, hfeed, ih]
    | case8 c d cs hclose hfeed hback ih =>
      rw [List.cons_append, List.cons_append, escapedBody, if_neg hclose, if_neg hfeed,
        if_neg hback, ← List.cons_append, ih]

end EscapedBody

theorem doubledBody_of_isClosing (allowed : Char → Bool) (h : IsClosing more) :
    doubledBody allowed more = none := by
  induction more with
  | nil => rfl
  | cons c more ih =>
    have hc : c ≠ '"' := h.ne (by decide)
    cases more with
    | nil => exact if_neg hc
    | cons d more =>
      rw [doubledBody, if_neg hc, ih h.tail]
      split <;> rfl

/-- One quote closes a body in front of other marks, and nothing else does. -/
theorem doubledBody_cons_of_isClosing (allowed : Char → Bool) (c : Char) (h : IsClosing more) :
    doubledBody allowed (c :: more) = if c = '"' then some 1 else none := by
  cases more with
  | nil => rfl
  | cons d more =>
    have hd : d ≠ '"' := h.ne (by decide)
    rw [doubledBody, if_neg hd, doubledBody_of_isClosing allowed h]
    split
    · rfl
    · split <;> rfl

theorem isFirm_doubledBody (allowed : Char → Bool) : IsFirm (doubledBody allowed) where
  bounded cs n h := by
    fun_induction doubledBody allowed cs generalizing n with
    | case1 | case3 | case8 => cases h
    | case2 | case5 | case6 =>
      cases h
      exact Nat.le_add_left 1 _
    | case4 cs m hm ih =>
      cases h
      exact Nat.add_le_add_right (ih m hm) 2
    | case7 c d cs _ _ ih =>
      obtain ⟨m, hm, rfl⟩ := Option.map_eq_some_iff.1 h
      exact Nat.add_le_add_right (ih m hm) 1
  append cs more hmore := by
    fun_induction doubledBody allowed cs with
    | case1 => exact doubledBody_of_isClosing allowed hmore
    | case2 => exact doubledBody_cons_of_isClosing allowed _ hmore
    | case3 c hc => exact (doubledBody_cons_of_isClosing allowed c hmore).trans (if_neg hc)
    | case4 cs n hn ih =>
      rw [hn] at ih
      simp [doubledBody, ih]
    | case5 cs hn ih =>
      rw [hn] at ih
      simp [doubledBody, ih]
    | case6 d cs hd => simp [doubledBody, hd]
    | case7 c d cs hc hallowed ih =>
      rw [List.cons_append, List.cons_append, doubledBody, if_neg hc, if_pos hallowed,
        ← List.cons_append, ih]
    | case8 c d cs hc hallowed => simp [doubledBody, hc, hallowed]

theorem head?_ne_slash_of_isClosing (h : IsClosing more) : more.head? ≠ some '/' := by
  cases more with
  | nil => simp
  | cons c more =>
    have hc : c ≠ '/' := h.ne (by decide)
    simpa using hc

theorem commentBody_of_isClosing (h : IsClosing more) : commentBody more = none := by
  induction more with
  | nil => rfl
  | cons c more ih =>
    rw [commentBody_cons, if_neg fun hend => head?_ne_slash_of_isClosing h.tail hend.2, ih h.tail]
    rfl

theorem isFirm_commentBody : IsFirm commentBody where
  bounded cs n h := by
    induction cs generalizing n with
    | nil => cases h
    | cons c cs ih =>
      rw [commentBody_cons] at h
      split at h
      · rename_i hend
        obtain ⟨rest, rfl⟩ := List.head?_eq_some_iff.1 hend.2
        cases h
        exact Nat.le_add_left 2 _
      · obtain ⟨m, hm, rfl⟩ := Option.map_eq_some_iff.1 h
        exact Nat.add_le_add_right (ih m hm) 1
  append cs more hmore := by
    induction cs with
    | nil => exact commentBody_of_isClosing hmore
    | cons c cs ih =>
      have hhead : (cs ++ more).head? = some '/' ↔ cs.head? = some '/' := by
        cases cs with
        | nil => simpa using head?_ne_slash_of_isClosing hmore
        | cons d cs => rfl
      rw [List.cons_append, commentBody_cons, commentBody_cons, ih]
      simp only [hhead]

/-! ## Numbers and names -/

theorem isFirm_run {p : Char → Bool} (hp : closingMarks.any p = false) :
    (ofExtent (run p)).IsFirm := by
  rw [ofExtent_run]
  exact .andThen (.one hp) (.run hp)

theorem isFirm_wholePart : (ofExtent wholePart).IsFirm := by
  rw [ofExtent_wholePart]
  exact .andThen (.one (by decide)) (.run (by decide))

theorem isFirm_decimalNumber : (ofExtent decimalNumber).IsFirm := by
  have hfraction : (ofExtent fractionPart).IsFirm := by
    rw [ofExtent_fractionPart]
    exact .andThen (.one (by decide)) isFirm_wholePart
  have hsign : (ofExtent sign).IsFirm := by
    rw [ofExtent_sign]
    exact .one (by decide)
  have hexponent : (ofExtent exponentPart).IsFirm := by
    rw [ofExtent_exponentPart]
    exact .andThen (.one (by decide)) (.andThen hsign.toTotal (isFirm_run (by decide)))
  rw [ofExtent_decimalNumber]
  exact .andThen isFirm_wholePart (.andThen hfraction.toTotal hexponent.toTotal)

theorem isFirm_name : (ofExtent name).IsFirm := by
  rw [ofExtent_name]
  exact .andThen (.one (by decide)) (.run (by decide))

/-! ## Rules -/

/-- The rule covers as much in front of closing marks as at the end of the text, or else all the
text, and does not give a lexeme that is well formed. -/
structure Rule.EndsAtMarks (rule : Rule) : Prop where
  le_length : ∀ cs, rule.extent cs ≤ cs.length
  append : ∀ c cs {more}, IsClosing more →
    rule.extent (c :: (cs ++ more)) = rule.extent (c :: cs) ∨
      (rule.kind = none ∨ rule.kind = some .error) ∧ rule.extent (c :: cs) ≠ 0 ∧
        rule.extent (c :: (cs ++ more)) = (cs ++ more).length + 1

namespace Rule.EndsAtMarks

theorem of_bounded {f : List Char → Nat} (h : (ofExtent f).IsBounded) (cs : List Char) :
    f cs ≤ cs.length := by
  by_cases hzero : f cs = 0
  · rw [hzero]
    exact Nat.zero_le _
  · exact h cs _ (if_neg hzero)

theorem of_isFirm {kind : Option LexemeKind} {f : List Char → Nat} (h : (ofExtent f).IsFirm) :
    Rule.EndsAtMarks ⟨kind, f⟩ where
  le_length := of_bounded h.bounded
  append c cs _ hmore := .inl (h.extent_append (c :: cs) hmore)

theorem of_isOpenEnded {kind : Option LexemeKind} {f : List Char → Nat}
    (h : (ofExtent f).IsOpenEnded) (hkind : kind = none ∨ kind = some .error) :
    Rule.EndsAtMarks ⟨kind, f⟩ where
  le_length := of_bounded h.bounded
  append c cs more hmore := by
    rcases h.append (c :: cs) hmore with hsame | ⟨hend, hend'⟩
    · exact .inl (extent_eq_extent hsame)
    · have hcovered : f (c :: cs) = cs.length + 1 := extent_eq_of_ofExtent hend
      have hpos : f (c :: cs) ≠ 0 := by omega
      exact .inr ⟨hkind, hpos, extent_eq_of_ofExtent hend'⟩

/-- One character is covered whatever follows. -/
theorem of_one {kind : Option LexemeKind} {f : List Char → Nat} {p : Char → Bool}
    (h : ofExtent f = one p) : Rule.EndsAtMarks ⟨kind, f⟩ where
  le_length := of_bounded fun cs n hn => by
    rw [h] at hn
    obtain ⟨c, rest, rfl, rfl, -⟩ := exists_of_one hn
    exact Nat.le_add_left 1 _
  append c cs more _ := by
    refine .inl (extent_eq_extent ?_)
    rw [h, one_cons, one_cons]

end Rule.EndsAtMarks

namespace CSharp

theorem isOpenEnded_lineComment : (ofExtent lineComment).IsOpenEnded := by
  rw [ofExtent_lineComment]
  exact .andThen (.one (by decide)) (.andThen (.one (by decide)) .restOfLine)

theorem isFirm_blockComment : (ofExtent blockComment).IsFirm := by
  rw [ofExtent_blockComment]
  exact .andThen (.one (by decide)) (.andThen (.one (by decide)) isFirm_commentBody)

theorem isOpenEnded_openComment : (ofExtent openComment).IsOpenEnded := by
  rw [ofExtent_openComment]
  exact .andThen (.one (by decide)) (.andThen (.one (by decide)) .length)

theorem isOpenEnded_directive : (ofExtent directive).IsOpenEnded := by
  rw [ofExtent_directive]
  exact .andThen (.one (by decide)) .restOfLine

theorem isFirm_verbatimString : (ofExtent verbatimString).IsFirm := by
  have hdollar : (one (· == '$')).IsFirm := .one (by decide)
  have hat : (one (· == '@')).IsFirm := .one (by decide)
  have hquote : (one (· == '"')).IsFirm := .one (by decide)
  rw [ofExtent_verbatimString, ofExtent_verbatimOpening]
  exact .andThen (.orElse (.andThen hdollar (.andThen hat hquote))
    (.orElse (.andThen hat (.andThen hdollar hquote)) (.andThen hat hquote)))
    (isFirm_doubledBody _)

theorem isFirm_string : (ofExtent string).IsFirm := by
  have hquote : (one (· == '"')).IsFirm := .one (by decide)
  rw [ofExtent_string, ofExtent_stringOpening]
  exact .andThen (.orElse (.andThen (.one (by decide)) hquote) hquote)
    (isFirm_escapedBody (by decide))

theorem isFirm_charLiteral : (ofExtent charLiteral).IsFirm := by
  rw [ofExtent_charLiteral]
  exact .andThen (.one (by decide))
    (.andThen (.notBefore (by decide)) (isFirm_escapedBody (by decide)))

theorem isOpenEnded_brokenLiteral : (ofExtent brokenLiteral).IsOpenEnded := by
  rw [ofExtent_brokenLiteral]
  exact .andThen (.run (by decide)) (.andThen (.one (by decide)) .restOfLine)

theorem isFirm_radixNumber {lower upper : Char} {digit : Char → Bool}
    (hradix : closingMarks.any (fun c => c == lower || c == upper) = false)
    (hdigit : closingMarks.any digit = false) :
    (ofExtent (radixNumber lower upper digit)).IsFirm := by
  rw [ofExtent_radixNumber]
  exact .andThen (.one (by decide))
    (.andThen (.one hradix) (.andThen (isFirm_run hdigit) (.run (by decide))))

theorem isFirm_number : (ofExtent number).IsFirm := by
  rw [ofExtent_number]
  exact .andThen isFirm_decimalNumber (.run (by decide))

theorem isFirm_identifier : (ofExtent identifier).IsFirm := by
  rw [ofExtent_identifier]
  exact .orElse (.andThen (.one (by decide)) isFirm_name) isFirm_name

theorem endsAtMarks_of_mem_rules {rule : Rule} (h : rule ∈ rules) : rule.EndsAtMarks := by
  simp only [rules, List.mem_cons, List.not_mem_nil, or_false] at h
  rcases h with rfl | rfl | rfl | rfl | rfl | rfl | rfl | rfl | rfl | rfl | rfl | rfl | rfl | rfl
  · exact .of_isFirm (isFirm_run (by decide))
  · exact .of_isOpenEnded isOpenEnded_lineComment (.inl rfl)
  · exact .of_isFirm isFirm_blockComment
  · exact .of_isOpenEnded isOpenEnded_openComment (.inr rfl)
  · exact .of_isOpenEnded isOpenEnded_directive (.inl rfl)
  · exact .of_isFirm isFirm_verbatimString
  · exact .of_isFirm isFirm_string
  · exact .of_isFirm isFirm_charLiteral
  · exact .of_isOpenEnded isOpenEnded_brokenLiteral (.inr rfl)
  · exact .of_isFirm (isFirm_radixNumber (by decide) (by decide))
  · exact .of_isFirm (isFirm_radixNumber (by decide) (by decide))
  · exact .of_isFirm isFirm_number
  · exact .of_isFirm isFirm_identifier
  · exact .of_one ofExtent_punctuation

end CSharp

namespace VisualBasic

theorem isFirm_lineEnd : IsFirm lineEnd where
  bounded cs n h := by
    unfold lineEnd at h
    split at h
    · cases h
      exact Nat.le_add_left 1 _
    · cases h
      exact Nat.le_add_left 2 _
    · cases h
  append cs more hmore := by
    match cs with
    | [] =>
      cases more with
      | nil => rfl
      | cons c more =>
        have hfeed : c ≠ '\n' := hmore.ne (by decide)
        have hreturn : c ≠ '\r' := hmore.ne (by decide)
        simp [lineEnd, hfeed, hreturn]
    | [c] =>
      cases more with
      | nil => rfl
      | cons d more =>
        have hd : d ≠ '\n' := hmore.ne (by decide)
        by_cases hc : c = '\n' <;> simp [lineEnd, hc, hd]
    | c :: d :: cs =>
      by_cases hc : c = '\n' <;> by_cases hc' : c = '\r' <;> by_cases hd : d = '\n' <;>
        simp_all [lineEnd]

theorem isFirm_continuation : (ofExtent continuation).IsFirm := by
  rw [ofExtent_continuation]
  exact .andThen (.one (by decide)) (.andThen (.run (by decide)) isFirm_lineEnd)

theorem isOpenEnded_comment : (ofExtent comment).IsOpenEnded := by
  rw [ofExtent_comment]
  exact .andThen (.one (by decide)) .restOfLine

theorem isOpenEnded_remark : (ofExtent remark).IsOpenEnded := by
  rw [ofExtent_remark]
  exact .andThen (.one (by decide)) (.andThen (.one (by decide))
    (.andThen (.one (by decide)) (.andThen (.notBefore (by decide)) .restOfLine)))

theorem isFirm_date : (ofExtent date).IsFirm := by
  rw [ofExtent_date]
  exact .andThen (.one (by decide)) (.andThen (.one (by decide)) (.run_andThen_one _ (by decide)))

theorem isOpenEnded_directive : (ofExtent directive).IsOpenEnded := by
  rw [ofExtent_directive]
  exact .andThen (.one (by decide)) .restOfLine

theorem isFirm_string : (ofExtent string).IsFirm := by
  rw [ofExtent_string]
  exact .andThen (.one (by decide))
    (.orElse (.andThen (isFirm_doubledBody _) (.one (by decide))) (isFirm_doubledBody _))

theorem isOpenEnded_brokenString : (ofExtent brokenString).IsOpenEnded := by
  rw [ofExtent_brokenString]
  exact .andThen (.one (by decide)) .restOfLine

theorem isFirm_radixNumber {radix : Char} {digit : Char → Bool}
    (hradix : closingMarks.any (·.toLower == radix) = false)
    (hdigit : closingMarks.any digit = false) :
    (ofExtent (radixNumber radix digit)).IsFirm := by
  rw [ofExtent_radixNumber]
  exact .andThen (.one (by decide))
    (.andThen (.one hradix) (.andThen (isFirm_run hdigit) (.run (by decide))))

theorem isFirm_number : (ofExtent number).IsFirm := by
  have hsuffix : (ofExtent numberSuffix).IsFirm := by
    rw [ofExtent_numberSuffix]
    exact .orElse (.andThen (.one (by decide)) (.one (by decide))) (.one (by decide))
  rw [ofExtent_number]
  exact .andThen isFirm_decimalNumber hsuffix.toTotal

theorem isFirm_bracketedName : (ofExtent bracketedName).IsFirm := by
  rw [ofExtent_bracketedName]
  exact .andThen (.one (by decide)) (.andThen isFirm_name (.one (by decide)))

theorem endsAtMarks_of_mem_rules {rule : Rule} (h : rule ∈ rules) : rule.EndsAtMarks := by
  simp only [rules, List.mem_cons, List.not_mem_nil, or_false] at h
  rcases h with rfl | rfl | rfl | rfl | rfl | rfl | rfl | rfl | rfl | rfl | rfl | rfl | rfl | rfl |
    rfl | rfl
  · exact .of_isFirm (isFirm_run (by decide))
  · exact .of_isFirm isFirm_continuation
  · exact .of_isOpenEnded isOpenEnded_comment (.inl rfl)
  · exact .of_isOpenEnded isOpenEnded_remark (.inl rfl)
  · exact .of_one ofExtent_newline
  · exact .of_isFirm isFirm_date
  · exact .of_isOpenEnded isOpenEnded_directive (.inl rfl)
  · exact .of_isFirm isFirm_string
  · exact .of_isOpenEnded isOpenEnded_brokenString (.inr rfl)
  · exact .of_isFirm (isFirm_radixNumber (by decide) (by decide))
  · exact .of_isFirm (isFirm_radixNumber (by decide) (by decide))
  · exact .of_isFirm (isFirm_radixNumber (by decide) (by decide))
  · exact .of_isFirm isFirm_number
  · exact .of_isFirm isFirm_bracketedName
  · exact .of_isFirm isFirm_name
  · exact .of_one ofExtent_punctuation

end VisualBasic

theorem endsAtMarks_of_mem_rules {language : Language} {rule : Rule}
    (h : rule ∈ language.rules) : rule.EndsAtMarks := by
  cases language with
  | csharp => exact CSharp.endsAtMarks_of_mem_rules h
  | visualBasic => exact VisualBasic.endsAtMarks_of_mem_rules h

/-! ## Lexemes -/

/-- In front of closing marks, a text that starts with no malformed lexeme starts with the same one
as at the end of the text, or all of it is dropped. -/
theorem firstRule_append_of_isClosing {rules : List Rule}
    (hrules : ∀ rule ∈ rules, rule.EndsAtMarks) {c : Char} {cs : List Char}
    {kind : Option LexemeKind} {n : Nat} (h : firstRule rules (c :: cs) = (kind, n))
    (hkind : kind ≠ some .error) (hmore : IsClosing more) :
    firstRule rules (c :: (cs ++ more)) = (kind, n) ∧ n ≤ cs.length ∨
      firstRule rules (c :: (cs ++ more)) = (none, (cs ++ more).length) := by
  induction rules with
  | nil =>
    cases h
    exact absurd rfl hkind
  | cons rule rules ih =>
    obtain ⟨hlength, happend⟩ := hrules rule List.mem_cons_self
    rcases happend c cs hmore with hsame | ⟨hclass, hpos, hend⟩
    · rw [firstRule] at h ⊢
      rw [hsame]
      cases hextent : rule.extent (c :: cs) with
      | zero =>
        rw [hextent] at h
        exact ih (fun other hother => hrules other (List.mem_cons_of_mem _ hother)) h
      | succ m =>
        rw [hextent] at h
        cases h
        have hcovered := hlength (c :: cs)
        rw [hextent, List.length_cons] at hcovered
        exact .inl ⟨rfl, Nat.le_of_succ_le_succ hcovered⟩
    · obtain ⟨m, hm⟩ := Nat.exists_eq_succ_of_ne_zero hpos
      rw [firstRule_of_extent hm] at h
      cases h
      exact .inr (hclass.resolve_right hkind ▸ firstRule_of_extent hend rules)

/-- A text of which each character is punctuation has nothing malformed. -/
theorem isError_of_forall_punct {rules : List Rule}
    (h : ∀ c ∈ more, ∀ cs, firstRule rules (c :: cs) = (some .punct, 0)) (start : Nat) :
    ∀ t ∈ tokensFrom rules start more, t.isError = false := by
  induction more generalizing start with
  | nil =>
    rw [tokensFrom]
    exact List.forall_mem_nil _
  | cons c more ih =>
    rw [tokensFrom, h c List.mem_cons_self]
    exact List.forall_mem_cons.2 ⟨rfl, ih (fun d hd => h d (List.mem_cons_of_mem c hd)) _⟩

/-- Marks that close a text make nothing of it malformed. -/
theorem isError_append_of_isClosing {rules : List Rule} (hrules : ∀ rule ∈ rules, rule.EndsAtMarks)
    (hmore : IsClosing more)
    (hmarks : ∀ c ∈ more, ∀ cs, firstRule rules (c :: cs) = (some .punct, 0))
    {start : Nat} {cs : List Char} (h : ∀ t ∈ tokensFrom rules start cs, t.isError = false) :
    ∀ t ∈ tokensFrom rules start (cs ++ more), t.isError = false := by
  fun_induction tokensFrom rules start cs with
  | case1 start => exact isError_of_forall_punct hmarks start
  | case2 start c cs n covered _ kind hfirst ih =>
    have hkind : some kind ≠ some .error := by
      simpa [Lexeme.isError] using h _ List.mem_cons_self
    rw [List.cons_append, tokensFrom]
    rcases firstRule_append_of_isClosing hrules hfirst hkind hmore with ⟨hsame, hn⟩ | hall
    · rw [hsame]
      dsimp only
      rw [List.take_append_of_le_length hn, List.drop_append_of_le_length hn]
      refine List.forall_mem_cons.2 ⟨h _ List.mem_cons_self, ih fun t ht => ?_⟩
      exact h t (List.mem_cons_of_mem _ ht)
    · rw [hall]
      dsimp only
      rw [List.drop_length, tokensFrom]
      exact List.forall_mem_nil _
  | case3 start c cs n covered _ hfirst ih =>
    rw [List.cons_append, tokensFrom]
    rcases firstRule_append_of_isClosing hrules hfirst (by simp) hmore with ⟨hsame, hn⟩ | hall
    · rw [hsame]
      dsimp only
      rw [List.take_append_of_le_length hn, List.drop_append_of_le_length hn]
      exact ih h
    · rw [hall]
      dsimp only
      rw [List.drop_length, tokensFrom]
      exact List.forall_mem_nil _

end ZeroAlloc.Lexis
