import ZeroAlloc.Proofs.Language.Invocation
import ZeroAlloc.Proofs.Lexis.Pattern
set_option autoImplicit false

/-! # Texts in front of a name

No lexeme that starts with a bracket or a blank goes on with the name behind it. So a text that ends
with one keeps its lexemes when a name is put behind it, and the name has its own
(`Language.row_append`), unless the text ends in a comment or leaves something open. Most shapes end
in front of such a character whatever follows it (`Shape.EndsEarly`). Bodies of literals and
comments may go on behind it, but only where the text alone has a malformed lexeme; comments and
directives take the name with them. -/

namespace ZeroAlloc

namespace Lexis

/-- Characters that no name or literal goes on behind, if a name follows them. -/
def separatorChars : List Char :=
  [' ', '\t', '\r', '\n', '(', ')', '\x7b', '\x7d', ',', ';', ':', '=', '<', '>', '?']

/-- The text ends with a separator. -/
def EndsWithSeparator (cs : List Char) : Prop :=
  ∃ c ∈ separatorChars, cs.getLast? = some c

instance : DecidablePred EndsWithSeparator := fun cs =>
  decidable_of_iff (separatorChars.any fun c => cs.getLast? == some c) <| by
    simp [EndsWithSeparator]

/-- The text starts with a name. -/
def StartsWithName (cs : List Char) : Prop :=
  ∃ c rest, cs = c :: rest ∧ startsName c = true

variable {cs more : List Char}

namespace EndsWithSeparator

theorem ne_nil (h : EndsWithSeparator cs) : cs ≠ [] := by
  rintro rfl
  obtain ⟨c, -, hc⟩ := h
  cases hc

theorem drop (h : EndsWithSeparator cs) {n : Nat} (hn : n < cs.length) :
    EndsWithSeparator (cs.drop n) := by
  obtain ⟨c, hmem, hc⟩ := h
  exact ⟨c, hmem, by rw [List.getLast?_drop, if_neg (Nat.not_le.2 hn), hc]⟩

theorem tail {c : Char} (h : EndsWithSeparator (c :: cs)) (hne : cs ≠ []) : EndsWithSeparator cs :=
  h.drop (n := 1) (Nat.succ_lt_succ (List.length_pos_iff.2 hne))

/-- A character that is no separator has something behind it. -/
theorem tail_ne_nil {c : Char} (h : EndsWithSeparator (c :: cs)) (hc : c ∉ separatorChars) :
    cs ≠ [] := by
  rintro rfl
  obtain ⟨d, hmem, hd⟩ := h
  obtain rfl : c = d := Option.some.inj hd
  exact hc hmem

end EndsWithSeparator

theorem eq_false_of_mem_separators {p : Char → Bool} {c : Char} (hp : separatorChars.any p = false)
    (hc : c ∈ separatorChars) : p c = false :=
  Bool.not_eq_true _ ▸ List.any_eq_false.1 hp c hc

theorem not_mem_separators {p : Char → Bool} {c : Char} (hp : separatorChars.any p = false)
    (hc : p c = true) : c ∉ separatorChars := by
  intro hmem
  rw [eq_false_of_mem_separators hp hmem] at hc
  cases hc

/-- A run that passes over no separator ends in front of the last character. -/
theorem takeWhile_length_lt {p : Char → Bool} (hp : separatorChars.any p = false)
    (h : EndsWithSeparator cs) : (cs.takeWhile p).length < cs.length := by
  obtain ⟨c, hmem, hc⟩ := h
  refine Nat.lt_of_le_of_ne (List.takeWhile_sublist p).length_le fun hlength => ?_
  have hall := (List.takeWhile_prefix p).eq_of_length hlength
  have hpc := List.mem_takeWhile_imp (hall.symm ▸ List.mem_of_getLast? hc)
  rw [eq_false_of_mem_separators hp hmem] at hpc
  cases hpc

theorem run_append_of_lt {p : Char → Bool} (h : (cs.takeWhile p).length < cs.length)
    (more : List Char) : run p (cs ++ more) = run p cs := by
  rw [run, run, List.takeWhile_append, if_neg (Nat.ne_of_lt h)]

/-- A run does not go on behind the text if it does not pass over what follows. -/
theorem run_append_of_head {p : Char → Bool} (hmore : more.head?.any p = false)
    (cs : List Char) : run p (cs ++ more) = run p cs := by
  rw [run, run, List.takeWhile_append]
  split
  · rename_i hall
    have hnil : more.takeWhile p = [] := by
      cases more with
      | nil => rfl
      | cons c more => exact List.takeWhile_cons_of_neg (Bool.not_eq_true _ ▸ hmore)
    rw [hnil, List.append_nil, hall]
  · rfl

theorem StartsWithName.head?_any {p : Char → Bool} (h : StartsWithName more)
    (hp : ∀ c, startsName c = true → p c = false) : more.head?.any p = false := by
  obtain ⟨c, rest, rfl, hc⟩ := h
  exact hp c hc

/-! ## Shapes -/

namespace Shape

/-- The shape ends in front of the last character of a text that ends with a separator, whatever
follows the text. -/
structure EndsEarly (s : Shape) : Prop where
  lt : ∀ {cs n}, EndsWithSeparator cs → s cs = some n → n < cs.length
  append : ∀ {cs} more, EndsWithSeparator cs → s (cs ++ more) = s cs

/-- Where the shape is there, it is the same whatever follows such a text. -/
structure StaysIfAny (s : Shape) : Prop where
  append : ∀ {cs n} more, EndsWithSeparator cs → s cs = some n → s (cs ++ more) = some n

/-- The shape is the same whatever follows such a text, or it covers the text and what follows it on
the line. -/
structure TakesLine (s : Shape) : Prop where
  append : ∀ {cs}, EndsWithSeparator cs → (∀ more, s (cs ++ more) = s cs) ∨
    s cs = some cs.length ∧ ∀ more, '\n' ∉ more → s (cs ++ more) = some (cs ++ more).length

namespace EndsEarly

theorem one {p : Char → Bool} (hp : separatorChars.any p = false) : (one p).EndsEarly where
  lt {cs n} h hn := by
    obtain ⟨c, rest, rfl, rfl, hc⟩ := exists_of_one hn
    have hrest := h.tail_ne_nil (not_mem_separators hp hc)
    exact Nat.succ_lt_succ (List.length_pos_iff.2 hrest)
  append {cs} more h := by
    obtain ⟨c, rest, rfl⟩ := List.exists_cons_of_ne_nil h.ne_nil
    rfl

theorem run {p : Char → Bool} (hp : separatorChars.any p = false) : (total (run p)).EndsEarly where
  lt h hn := by
    cases hn
    exact takeWhile_length_lt hp h
  append more h := congrArg some (run_append_of_lt (takeWhile_length_lt hp h) more)

theorem notBefore (p : Char → Bool) : (notBefore p).EndsEarly where
  lt {cs n} h hn := by
    rw [Shape.notBefore] at hn
    split at hn
    · cases hn
    · cases hn
      exact List.length_pos_iff.2 h.ne_nil
  append {cs} more h := by
    obtain ⟨c, rest, rfl⟩ := List.exists_cons_of_ne_nil h.ne_nil
    rfl

theorem orElse {s t : Shape} (hs : s.EndsEarly) (ht : t.EndsEarly) : (s.orElse t).EndsEarly where
  lt h hn := (of_orElse hn).elim (hs.lt h) (ht.lt h)
  append more h := by rw [Shape.orElse, Shape.orElse, hs.append more h, ht.append more h]

theorem andThen {s t : Shape} (hs : s.EndsEarly) (ht : t.EndsEarly) :
    (s.andThen t).EndsEarly where
  lt {cs n} h hn := by
    obtain ⟨m, k, hm, hk, rfl, -⟩ := exists_of_andThen hn
    have hfirst := hs.lt h hm
    have hsecond := ht.lt (h.drop hfirst) hk
    rw [List.length_drop] at hsecond
    omega
  append {cs} more h := by
    rw [Shape.andThen, Shape.andThen, hs.append more h]
    cases hm : s cs with
    | none => rfl
    | some m =>
      have hfirst := hs.lt h hm
      rw [Option.bind_some, Option.bind_some, List.drop_append_of_le_length (Nat.le_of_lt hfirst),
        ht.append more (h.drop hfirst)]

theorem toTotal {f : List Char → Nat} (hf : (ofExtent f).EndsEarly) : (total f).EndsEarly where
  lt {cs n} h hn := by
    cases hn
    by_cases hzero : f cs = 0
    · rw [hzero]
      exact List.length_pos_iff.2 h.ne_nil
    · exact hf.lt h (if_neg hzero)
  append more h := congrArg some (extent_eq_extent (hf.append more h))

theorem ofRun {p : Char → Bool} (hp : separatorChars.any p = false) :
    (ofExtent (Lexis.run p)).EndsEarly := by
  rw [ofExtent_run]
  exact .andThen (.one hp) (.run hp)

end EndsEarly

theorem StaysIfAny.andThen {s t : Shape} (hs : s.EndsEarly) (ht : t.StaysIfAny) :
    (s.andThen t).StaysIfAny where
  append {cs n} more h hn := by
    obtain ⟨m, k, hm, hk, rfl, -⟩ := exists_of_andThen hn
    have hfirst := hs.lt h hm
    rw [Shape.andThen, hs.append more h, hm, Option.bind_some,
      List.drop_append_of_le_length (Nat.le_of_lt hfirst), ht.append more (h.drop hfirst) hk]
    rfl

namespace TakesLine

theorem andThen {s t : Shape} (hs : s.EndsEarly) (ht : t.TakesLine) :
    (s.andThen t).TakesLine := by
  refine ⟨fun {cs} h => ?_⟩
  cases hm : s cs with
  | none =>
    refine .inl fun more => ?_
    rw [Shape.andThen, Shape.andThen, hs.append more h, hm]
    rfl
  | some m =>
    have hfirst := hs.lt h hm
    have happend (more : List Char) : s.andThen t (cs ++ more) =
        (t (cs.drop m ++ more)).map (m + ·) := by
      rw [Shape.andThen, hs.append more h, hm, Option.bind_some,
        List.drop_append_of_le_length (Nat.le_of_lt hfirst)]
    have hself : s.andThen t cs = (t (cs.drop m)).map (m + ·) := by
      rw [Shape.andThen, hm, Option.bind_some]
    have hlength : (cs.drop m).length = cs.length - m := List.length_drop
    rcases ht.append (h.drop hfirst) with hsame | ⟨hall, hline⟩
    · exact .inl fun more => by rw [happend, hself, hsame]
    · refine .inr ⟨?_, fun more hmore => ?_⟩
      · rw [hself, hall, Option.map_some]
        exact congrArg some (by omega)
      · rw [happend, hline more hmore, Option.map_some, List.length_append, List.length_append]
        exact congrArg some (by omega)

theorem length : TakesLine (total List.length) :=
  ⟨fun _ => .inr ⟨rfl, fun _ _ => rfl⟩⟩

theorem restOfLine : TakesLine (total restOfLine) := by
  refine ⟨fun {cs} _ => ?_⟩
  by_cases hfeed : '\n' ∈ cs
  · have hlt : (cs.takeWhile fun c => decide (c ≠ '\n')).length < cs.length := by
      refine Nat.lt_of_le_of_ne (List.takeWhile_sublist _).length_le fun hlength => ?_
      have hall := (List.takeWhile_prefix _).eq_of_length hlength
      have hne := List.mem_takeWhile_imp (hall.symm ▸ hfeed)
      simp at hne
    exact .inl fun more => congrArg some (run_append_of_lt hlt more)
  · have hrun {ds : List Char} (hds : '\n' ∉ ds) : Lexis.restOfLine ds = ds.length := by
      rw [Lexis.restOfLine, Lexis.run, List.takeWhile_eq_self_iff.2]
      intro c hc
      exact decide_eq_true (ne_of_mem_of_not_mem hc hds)
    refine .inr ⟨congrArg some (hrun hfeed), fun more hmore => congrArg some (hrun ?_)⟩
    rw [List.mem_append, not_or]
    exact ⟨hfeed, hmore⟩

end TakesLine

end Shape

open Shape

/-! ## Bodies -/

theorem escapedBody_append {quote : Char} {n : Nat} (more : List Char)
    (h : escapedBody quote cs = some n) : escapedBody quote (cs ++ more) = some n := by
  fun_induction escapedBody quote cs generalizing n with
  | case1 | case3 | case5 | case6 => cases h
  | case2 =>
    cases h
    exact escapedBody_quote quote more
  | case4 d cs =>
    cases h
    exact escapedBody_quote quote (d :: cs ++ more)
  | case7 d cs hfeed hclose _ ih =>
    obtain ⟨m, hm, rfl⟩ := Option.map_eq_some_iff.1 h
    simp [escapedBody, hclose, hfeed, ih hm]
  | case8 c d cs hclose hfeed hback ih =>
    obtain ⟨m, hm, rfl⟩ := Option.map_eq_some_iff.1 h
    have hrest := ih hm
    rw [List.cons_append] at hrest
    rw [List.cons_append, List.cons_append, escapedBody, if_neg hclose, if_neg hfeed,
      if_neg hback, hrest]
    rfl

theorem commentBody_append {n : Nat} (more : List Char) (h : commentBody cs = some n) :
    commentBody (cs ++ more) = some n := by
  induction cs generalizing n with
  | nil => cases h
  | cons c cs ih =>
    have hne : cs ≠ [] := by
      rintro rfl
      simp [commentBody_cons, commentBody] at h
    have hhead : (cs ++ more).head? = cs.head? := List.head?_append_of_ne_nil _ hne
    rw [commentBody_cons] at h
    rw [List.cons_append, commentBody_cons, hhead]
    split at h
    · rename_i hend
      rw [if_pos hend, h]
    · rename_i hend
      obtain ⟨m, hm, rfl⟩ := Option.map_eq_some_iff.1 h
      rw [if_neg hend, ih hm]
      rfl

/-- A body that doubles its quotes is the same in front of any text, unless the quote that closes it
stands in front of another one, behind which no quote closes a body. -/
theorem doubledBody_append {allowed : Char → Bool} {n : Nat} (h : EndsWithSeparator cs)
    (hn : doubledBody allowed cs = some n) :
    n < cs.length ∧ ((∀ more, doubledBody allowed (cs ++ more) = some n) ∨
      ∃ rest, cs.drop n = '"' :: rest ∧ doubledBody allowed rest = none) := by
  fun_induction doubledBody allowed cs generalizing n with
  | case1 | case3 | case8 => cases hn
  | case2 => exact absurd rfl (h.tail_ne_nil (by decide))
  | case4 cs m hm ih =>
    cases hn
    have hne : cs ≠ [] := by
      rintro rfl
      cases hm
    obtain ⟨hlt, hrest⟩ := ih ((h.tail (List.cons_ne_nil _ _)).tail hne) hm
    refine ⟨by simpa using hlt, hrest.imp_left fun happend more => ?_⟩
    simp [doubledBody, happend more]
  | case5 cs hnone =>
    cases hn
    exact ⟨by simp, .inr ⟨cs, rfl, hnone⟩⟩
  | case6 d cs hd =>
    cases hn
    exact ⟨by simp, .inl fun more => by simp [doubledBody, hd]⟩
  | case7 c d cs hc hallowed ih =>
    obtain ⟨m, hm, rfl⟩ := Option.map_eq_some_iff.1 hn
    obtain ⟨hlt, hrest⟩ := ih (h.tail (List.cons_ne_nil _ _)) hm
    refine ⟨Nat.succ_lt_succ hlt, hrest.imp (fun happend more => ?_) id⟩
    have hmore := happend more
    rw [List.cons_append] at hmore
    rw [List.cons_append, List.cons_append, doubledBody, if_neg hc, if_pos hallowed, hmore]
    rfl

theorem not_mem_of_doubledBody_eq_none (h : doubledBody (fun _ => true) cs = none) : '"' ∉ cs := by
  fun_induction doubledBody (fun _ => true) cs with
  | case1 => exact List.not_mem_nil
  | case2 | case4 | case5 | case6 => cases h
  | case3 c hc => simpa using Ne.symm hc
  | case7 c d cs hc _ ih =>
    rw [Option.map_eq_none_iff] at h
    rw [List.mem_cons, not_or]
    exact ⟨Ne.symm hc, ih h⟩
  | case8 c d cs _ hallowed => exact absurd rfl hallowed

theorem escapedBody_eq_none {quote : Char} (h : quote ∉ cs) : escapedBody quote cs = none := by
  fun_induction escapedBody quote cs with
  | case1 | case3 | case5 | case6 => rfl
  | case2 | case4 => exact absurd List.mem_cons_self h
  | case7 d cs _ _ _ ih =>
    rw [ih fun hmem => h (List.mem_cons_of_mem _ (List.mem_cons_of_mem _ hmem))]
    rfl
  | case8 c d cs _ _ _ ih =>
    rw [ih fun hmem => h (List.mem_cons_of_mem _ hmem)]
    rfl

/-! ## Rules -/

/-- How a rule, with the `later` ones after it, meets a text that ends with a separator. It keeps
its extent in front of a name, or the rules from it on drop the text and a name with it, or they
find the text malformed, or all rules find something malformed behind what it covers. -/
inductive Rule.Meets (rules later : List Rule) (rule : Rule) (cs : List Char) : Prop
  | keeps (append : ∀ {more}, StartsWithName more → rule.extent (cs ++ more) = rule.extent cs)
  | drops (alone : firstRule (rule :: later) cs = (none, cs.length - 1))
      (behind : firstRule (rule :: later) (cs ++ ['x']) = (none, cs.length))
  | fails (isError : (firstRule (rule :: later) cs).1 = some .error)
  | spoils {n : Nat} (extent : rule.extent cs = n + 1) (lt_length : n + 1 < cs.length)
      (isError : (firstRule rules (cs.drop (n + 1))).1 = some .error)

/-- The same for each of the rules. -/
def MeetEach (rules : List Rule) (cs : List Char) : List Rule → Prop
  | [] => True
  | rule :: later => rule.Meets rules later cs ∧ MeetEach rules cs later

namespace Rule.Meets

variable {rules later : List Rule} {kind : Option LexemeKind} {f : List Char → Nat}

theorem of_endsEarly (hf : (ofExtent f).EndsEarly) (h : EndsWithSeparator cs) :
    Rule.Meets rules later ⟨kind, f⟩ cs :=
  .keeps fun _ => extent_eq_extent (hf.append _ h)

/-- One character is covered whatever follows. -/
theorem of_one {p : Char → Bool} (hf : ofExtent f = one p) (h : EndsWithSeparator cs) :
    Rule.Meets rules later ⟨kind, f⟩ cs := by
  obtain ⟨c, rest, rfl⟩ := List.exists_cons_of_ne_nil h.ne_nil
  exact .keeps fun _ => extent_eq_extent (by rw [hf]; rfl)

/-- What a line takes with it is dropped or malformed. -/
theorem of_takesLine (hf : (ofExtent f).TakesLine) (hkind : kind = none ∨ kind = some .error)
    (h : EndsWithSeparator cs) : Rule.Meets rules later ⟨kind, f⟩ cs := by
  rcases hf.append h with hsame | ⟨hall, hline⟩
  · exact .keeps fun _ => extent_eq_extent (hsame _)
  · have hpos := List.length_pos_iff.2 h.ne_nil
    have halone : f cs = cs.length - 1 + 1 := by
      rw [extent_eq_of_ofExtent hall]
      omega
    have hbehind : f (cs ++ ['x']) = cs.length + 1 := by
      rw [extent_eq_of_ofExtent (hline ['x'] (by decide))]
      simp
    rcases hkind with rfl | rfl
    · exact .drops (firstRule_of_extent halone later) (firstRule_of_extent hbehind later)
    · refine .fails ?_
      rw [firstRule_of_extent halone]

/-- A body that nothing closes is left to a later rule, which finds it malformed. -/
theorem of_body {s t : Shape} (hf : ofExtent f = s.andThen t) (hs : s.EndsEarly)
    (ht : t.StaysIfAny) (h : EndsWithSeparator cs)
    (hopen : ∀ m, s cs = some m → t (cs.drop m) = none → (firstRule later cs).1 = some .error) :
    Rule.Meets rules later ⟨kind, f⟩ cs := by
  by_cases hzero : f cs = 0
  · have hnone : s.andThen t cs = none := by rw [← hf, ofExtent, if_pos hzero]
    rw [Shape.andThen, Option.bind_eq_none_iff] at hnone
    cases hm : s cs with
    | none =>
      refine .keeps fun {more} _ => extent_eq_extent ?_
      rw [hf, Shape.andThen, Shape.andThen, hs.append more h, hm]
      rfl
    | some m =>
      refine .fails ?_
      rw [firstRule_of_extent_eq_zero hzero]
      exact hopen m hm (Option.map_eq_none_iff.1 (hnone m hm))
  · have hsome : s.andThen t cs = some (f cs) := by rw [← hf, ofExtent, if_neg hzero]
    refine .keeps fun {more} _ => extent_eq_extent ?_
    rw [hf, (StaysIfAny.andThen hs ht).append more h hsome, hsome]

end Rule.Meets

/-- A text that ends with a separator starts with the same lexeme in front of a name, unless it is
dropped as a whole or has a malformed lexeme. -/
theorem firstRule_append_of_meetEach {rules rest : List Rule} (hrest : MeetEach rules cs rest)
    (hlength : ∀ rule ∈ rest, rule.extent cs ≤ cs.length) (h : EndsWithSeparator cs)
    {kind : Option LexemeKind} {n : Nat}
    (hfirst : firstRule rest cs = (kind, n)) (hkind : kind ≠ some .error)
    (hnext : n + 1 < cs.length → (firstRule rules (cs.drop (n + 1))).1 ≠ some .error) :
    n + 1 ≤ cs.length ∧
        (∀ {more}, StartsWithName more → firstRule rest (cs ++ more) = (kind, n)) ∨
      kind = none ∧ n + 1 = cs.length ∧ firstRule rest (cs ++ ['x']) = (none, cs.length) := by
  induction rest with
  | nil =>
    cases hfirst
    exact absurd rfl hkind
  | cons rule later ih =>
    obtain ⟨hmeets, hlater⟩ := hrest
    obtain ⟨hcovers, hlength⟩ := List.forall_mem_cons.1 hlength
    cases hmeets with
    | keeps happend =>
      rw [firstRule] at hfirst
      split at hfirst
      next hextent =>
        have hsame {more : List Char} (hmore : StartsWithName more) :
            firstRule (rule :: later) (cs ++ more) = firstRule later (cs ++ more) :=
          firstRule_of_extent_eq_zero ((happend hmore).trans hextent) later
        rcases ih hlater hlength hfirst with ⟨hn, hkeeps⟩ | hdrops
        · exact .inl ⟨hn, fun hmore => (hsame hmore).trans (hkeeps hmore)⟩
        · rw [hsame ⟨'x', [], rfl, by decide⟩]
          exact .inr hdrops
      next hextent =>
        cases hfirst
        refine .inl ⟨(Nat.le_of_eq hextent.symm).trans hcovers, fun hmore => ?_⟩
        exact firstRule_of_extent ((happend hmore).trans hextent) later
    | drops halone hbehind =>
      have hpos := List.length_pos_iff.2 h.ne_nil
      cases halone.symm.trans hfirst
      exact .inr ⟨rfl, by omega, hbehind⟩
    | fails herror =>
      rw [hfirst] at herror
      exact absurd herror hkind
    | spoils hextent hlt herror =>
      rw [firstRule_of_extent hextent] at hfirst
      cases hfirst
      exact absurd herror (hnext hlt)

/-- Blank space ends in front of a name. -/
theorem Rule.Meets.of_blank {rules later : List Rule} {kind : Option LexemeKind} {p : Char → Bool}
    (hp : ∀ c, startsName c = true → p c = false) : Rule.Meets rules later ⟨kind, run p⟩ cs :=
  .keeps fun hmore => run_append_of_head (hmore.head?_any hp) cs

/-- A rule for malformed lexemes that applies gives one. -/
theorem isError_of_extent {rules : List Rule} {f : List Char → Nat} (h : f cs ≠ 0) :
    (firstRule (⟨some .error, f⟩ :: rules) cs).1 = some .error := by
  obtain ⟨n, hn⟩ := Nat.exists_eq_succ_of_ne_zero h
  rw [firstRule_of_extent hn]

/-! ## Numbers and names -/

theorem endsEarly_wholePart : (ofExtent wholePart).EndsEarly := by
  rw [ofExtent_wholePart]
  exact .andThen (.one (by decide)) (.run (by decide))

theorem endsEarly_decimalNumber : (ofExtent decimalNumber).EndsEarly := by
  have hfraction : (ofExtent fractionPart).EndsEarly := by
    rw [ofExtent_fractionPart]
    exact .andThen (.one (by decide)) endsEarly_wholePart
  have hsign : (ofExtent sign).EndsEarly := by
    rw [ofExtent_sign]
    exact .one (by decide)
  have hexponent : (ofExtent exponentPart).EndsEarly := by
    rw [ofExtent_exponentPart]
    exact .andThen (.one (by decide)) (.andThen hsign.toTotal (.ofRun (by decide)))
  rw [ofExtent_decimalNumber]
  exact .andThen endsEarly_wholePart (.andThen hfraction.toTotal hexponent.toTotal)

theorem endsEarly_name : (ofExtent name).EndsEarly := by
  rw [ofExtent_name]
  exact .andThen (.one (by decide)) (.run (by decide))

/-! ## C# -/

namespace CSharp

theorem takesLine_lineComment : (ofExtent lineComment).TakesLine := by
  rw [ofExtent_lineComment]
  exact .andThen (.one (by decide)) (.andThen (.one (by decide)) .restOfLine)

theorem meets_blockComment {all later : List Rule} (h : EndsWithSeparator cs) :
    Rule.Meets all (⟨some .error, openComment⟩ :: later) ⟨none, blockComment⟩ cs := by
  have hslash : (one (· == '/')).EndsEarly := .one (by decide)
  have hstar : (one (· == '*')).EndsEarly := .one (by decide)
  refine .of_body (ofExtent_blockComment.trans (andThen_assoc _ _ _).symm) (hslash.andThen hstar)
    ⟨fun more _ hn => commentBody_append more hn⟩ h fun m hm _ => isError_of_extent ?_
  obtain ⟨_, _, hfirst, hsecond, -⟩ := exists_of_andThen hm
  obtain ⟨_, _, rfl, rfl, hc⟩ := exists_of_one hfirst
  obtain ⟨_, _, hrest, -, hd⟩ := exists_of_one hsecond
  obtain rfl := hrest
  obtain rfl := eq_of_beq hc
  obtain rfl := eq_of_beq hd
  simp [openComment]

/-- A quote behind which no quote closes a literal is malformed. -/
theorem isError_of_quote (h : doubledBody (fun _ => true) cs = none) :
    (firstRule rules ('"' :: cs)).1 = some .error := by
  have hbody := escapedBody_eq_none (not_mem_of_doubledBody_eq_none h)
  simp [rules, firstRule, run, lineComment, blockComment, openComment, directive, verbatimString,
    verbatimOpening, string, stringOpening, hbody, charLiteral, brokenLiteral, Nat.add_comm 1,
    show Text.isBlank '"' = false by decide]

theorem endsEarly_verbatimOpening : (ofExtent verbatimOpening).EndsEarly := by
  have hdollar : (one (· == '$')).EndsEarly := .one (by decide)
  have hat : (one (· == '@')).EndsEarly := .one (by decide)
  have hquote : (one (· == '"')).EndsEarly := .one (by decide)
  rw [ofExtent_verbatimOpening]
  exact .orElse (.andThen hdollar (.andThen hat hquote))
    (.orElse (.andThen hat (.andThen hdollar hquote)) (.andThen hat hquote))

/-- What is no character literal and starts with a quote is malformed. -/
theorem isError_of_literals {later : List Rule} (hchar : charLiteral cs = 0)
    (hbroken : brokenLiteral cs ≠ 0) :
    (firstRule (⟨some .str, charLiteral⟩ :: ⟨some .error, brokenLiteral⟩ :: later) cs).1 =
      some .error := by
  rw [firstRule_of_extent_eq_zero hchar]
  exact isError_of_extent hbroken

/-- A verbatim string that is left open is malformed. -/
theorem isError_of_verbatimOpening {later : List Rule} (h : verbatimOpening cs ≠ 0) :
    (firstRule (⟨some .str, string⟩ :: ⟨some .str, charLiteral⟩ ::
      ⟨some .error, brokenLiteral⟩ :: later) cs).1 = some .error := by
  have hstring : string cs = 0 ∧ charLiteral cs = 0 ∧ brokenLiteral cs ≠ 0 := by
    unfold verbatimOpening at h
    split at h
    · exact ⟨rfl, rfl, by simp [brokenLiteral, run]⟩
    · exact ⟨rfl, rfl, by simp [brokenLiteral, run]⟩
    · exact ⟨rfl, rfl, by simp [brokenLiteral, run]⟩
    · exact absurd rfl h
  rw [firstRule_of_extent_eq_zero hstring.1]
  exact isError_of_literals hstring.2.1 hstring.2.2

theorem meets_verbatimString {later : List Rule} (h : EndsWithSeparator cs) :
    Rule.Meets rules (⟨some .str, string⟩ :: ⟨some .str, charLiteral⟩ ::
      ⟨some .error, brokenLiteral⟩ :: later) ⟨some .str, verbatimString⟩ cs := by
  have hopening := endsEarly_verbatimOpening
  have happend (more : List Char) : verbatimOpening (cs ++ more) = verbatimOpening cs :=
    extent_eq_extent (hopening.append more h)
  cases hm : verbatimOpening cs with
  | zero =>
    have hzero : verbatimString cs = 0 := by simp [verbatimString, hm]
    refine .keeps fun {more} _ => ?_
    have hmore : verbatimString (cs ++ more) = 0 := by simp [verbatimString, happend, hm]
    exact hmore.trans hzero.symm
  | succ m =>
    have hpos : verbatimOpening cs ≠ 0 := by simp [hm]
    have hlt : m + 1 < cs.length := by
      have := hopening.lt h (if_neg hpos)
      rwa [hm] at this
    have hbehind := h.drop hlt
    cases hbody : doubledBody (fun _ => true) (cs.drop (m + 1)) with
    | none =>
      have hzero : verbatimString cs = 0 := by simp [verbatimString, hm, hbody]
      refine .fails ?_
      rw [firstRule_of_extent_eq_zero hzero]
      exact isError_of_verbatimOpening hpos
    | some n =>
      have hextent : verbatimString cs = m + 1 + n := by simp [verbatimString, hm, hbody]
      obtain ⟨hbodylt, hsame | ⟨rest, hrest, hnone⟩⟩ := doubledBody_append hbehind hbody
      · refine .keeps fun {more} _ => ?_
        have hmore : verbatimString (cs ++ more) = m + 1 + n := by
          simp [verbatimString, happend, hm, List.drop_append_of_le_length (Nat.le_of_lt hlt),
            hsame]
        exact hmore.trans hextent.symm
      · rw [List.length_drop] at hbodylt
        rw [List.drop_drop] at hrest
        refine .spoils (n := m + n) (hextent.trans (Nat.add_right_comm m 1 n)) (by omega) ?_
        rw [show m + n + 1 = m + 1 + n by omega, hrest]
        exact isError_of_quote hnone

theorem meets_string {all later : List Rule} (h : EndsWithSeparator cs) :
    Rule.Meets all (⟨some .str, charLiteral⟩ :: ⟨some .error, brokenLiteral⟩ :: later)
      ⟨some .str, string⟩ cs := by
  have hopening : (ofExtent stringOpening).EndsEarly := by
    have hquote : (one (· == '"')).EndsEarly := .one (by decide)
    rw [ofExtent_stringOpening]
    exact .orElse (.andThen (.one (by decide)) hquote) hquote
  refine .of_body ofExtent_string hopening ⟨fun more _ hn => escapedBody_append more hn⟩ h
    fun m hm _ => ?_
  have hpos : stringOpening cs ≠ 0 := by
    intro hzero
    rw [ofExtent, if_pos hzero] at hm
    cases hm
  unfold stringOpening at hpos
  split at hpos
  · exact isError_of_literals rfl (by simp [brokenLiteral, run])
  · exact isError_of_literals rfl (by simp [brokenLiteral, run])
  · exact absurd rfl hpos

theorem meets_charLiteral {all later : List Rule} (h : EndsWithSeparator cs) :
    Rule.Meets all (⟨some .error, brokenLiteral⟩ :: later) ⟨some .str, charLiteral⟩ cs := by
  have hbody : StaysIfAny ((notBefore (· == '\'')).andThen (escapedBody '\'')) :=
    .andThen (.notBefore _) ⟨fun more _ hn => escapedBody_append more hn⟩
  refine .of_body ofExtent_charLiteral (.one (by decide)) hbody h
    fun m hm _ => isError_of_extent ?_
  obtain ⟨c, rest, rfl, -, hc⟩ := exists_of_one hm
  obtain rfl := eq_of_beq hc
  simp [brokenLiteral, run, Nat.add_comm 1]

theorem takesLine_brokenLiteral : (ofExtent brokenLiteral).TakesLine := by
  rw [ofExtent_brokenLiteral]
  exact .andThen (.run (by decide)) (.andThen (.one (by decide)) .restOfLine)

theorem endsEarly_radixNumber {lower upper : Char} {digit : Char → Bool}
    (hradix : separatorChars.any (fun c => c == lower || c == upper) = false)
    (hdigit : separatorChars.any digit = false) :
    (ofExtent (radixNumber lower upper digit)).EndsEarly := by
  rw [ofExtent_radixNumber]
  exact .andThen (.one (by decide))
    (.andThen (.one hradix) (.andThen (.ofRun hdigit) (.run (by decide))))

theorem endsEarly_number : (ofExtent number).EndsEarly := by
  rw [ofExtent_number]
  exact .andThen endsEarly_decimalNumber (.run (by decide))

theorem endsEarly_identifier : (ofExtent identifier).EndsEarly := by
  rw [ofExtent_identifier]
  exact .orElse (.andThen (.one (by decide)) endsEarly_name) endsEarly_name

theorem meetEach_rules (h : EndsWithSeparator cs) : MeetEach rules cs rules := by
  have hopen : (ofExtent openComment).TakesLine := by
    rw [ofExtent_openComment]
    exact .andThen (.one (by decide)) (.andThen (.one (by decide)) .length)
  have hdirective : (ofExtent directive).TakesLine := by
    rw [ofExtent_directive]
    exact .andThen (.one (by decide)) .restOfLine
  exact ⟨.of_blank fun _ => isBlank_of_startsName,
    .of_takesLine takesLine_lineComment (.inl rfl) h, meets_blockComment h,
    .of_takesLine hopen (.inr rfl) h, .of_takesLine hdirective (.inl rfl) h,
    meets_verbatimString h, meets_string h, meets_charLiteral h,
    .of_takesLine takesLine_brokenLiteral (.inr rfl) h,
    .of_endsEarly (endsEarly_radixNumber (by decide) (by decide)) h,
    .of_endsEarly (endsEarly_radixNumber (by decide) (by decide)) h,
    .of_endsEarly endsEarly_number h, .of_endsEarly endsEarly_identifier h,
    .of_one ofExtent_punctuation h, trivial⟩

end CSharp

/-! ## Visual Basic -/

namespace VisualBasic

theorem isLineBlank_of_startsName {c : Char} (hc : startsName c = true) :
    isLineBlank c = false := by
  simp [isLineBlank, ne_of_startsName hc (d := ' ') (by decide),
    ne_of_startsName hc (d := '\t') (by decide), ne_of_startsName hc (d := '\r') (by decide),
    ne_of_startsName hc (d := '\x0c') (by decide)]

/-- No name belongs to a line end. -/
theorem lineEnd_append (hmore : StartsWithName more) (cs : List Char) :
    lineEnd (cs ++ more) = lineEnd cs := by
  obtain ⟨c, rest, rfl, hc⟩ := hmore
  have hfeed : c ≠ '\n' := ne_of_startsName hc (by decide)
  have hreturn : c ≠ '\r' := ne_of_startsName hc (by decide)
  rcases cs with _ | ⟨d, _ | ⟨e, cs⟩⟩
  · simp [lineEnd, hfeed, hreturn]
  · by_cases hd : d = '\n'
    · simp [lineEnd, hd]
    · simp [lineEnd, hd, hfeed]
  · by_cases hd : d = '\n' <;> by_cases hd' : d = '\r' <;> by_cases he : e = '\n' <;>
      simp_all [lineEnd]

theorem meets_continuation {all later : List Rule} (h : EndsWithSeparator cs) :
    Rule.Meets all later ⟨none, continuation⟩ cs := by
  obtain ⟨c, rest, rfl⟩ := List.exists_cons_of_ne_nil h.ne_nil
  refine .keeps fun {more} hmore => extent_eq_extent ?_
  have hblank : more.head?.any (fun d => d == ' ' || d == '\t') = false :=
    hmore.head?_any fun d hd => by
      simp [ne_of_startsName hd (d := ' ') (by decide), ne_of_startsName hd (d := '\t') (by decide)]
  rw [ofExtent_continuation, List.cons_append, one_andThen_cons, one_andThen_cons, total_andThen,
    total_andThen, run_append_of_head hblank, List.drop_append_of_le_length (run_le_length _ rest),
    lineEnd_append hmore]

theorem takesLine_comment : (ofExtent comment).TakesLine := by
  rw [ofExtent_comment]
  exact .andThen (.one (by decide)) .restOfLine

theorem takesLine_remark : (ofExtent remark).TakesLine := by
  rw [ofExtent_remark]
  exact .andThen (.one (by decide)) (.andThen (.one (by decide))
    (.andThen (.one (by decide)) (.andThen (.notBefore _) .restOfLine)))

theorem takesLine_directive : (ofExtent directive).TakesLine := by
  rw [ofExtent_directive]
  exact .andThen (.one (by decide)) .restOfLine

theorem takesLine_brokenString : (ofExtent brokenString).TakesLine := by
  rw [ofExtent_brokenString]
  exact .andThen (.one (by decide)) .restOfLine

/-- A date that is left open is a directive. -/
theorem isDropped_of_openDate {later : List Rule} {d : Char}
    (h : ∀ c ∈ cs, (c ≠ '#' && c ≠ '\n') = true) (hd : d.isDigit = true) :
    firstRule (⟨some .str, date⟩ :: ⟨none, directive⟩ :: later) ('#' :: d :: cs) =
      (none, cs.length + 1) := by
  have hbody : run (fun c => c ≠ '#' && c ≠ '\n') cs = cs.length := by
    rw [run, List.takeWhile_eq_self_iff.2 h]
  have hdate : date ('#' :: d :: cs) = 0 := by
    simp only [date, hbody, List.drop_length, hd]
    rfl
  have hline : restOfLine (d :: cs) = cs.length + 1 := by
    have hfeed : ∀ c ∈ d :: cs, decide (c ≠ '\n') = true :=
      List.forall_mem_cons.2 ⟨decide_eq_true (by rintro rfl; exact absurd hd (by decide)),
        fun c hc => (Bool.and_eq_true_iff.1 (h c hc)).2⟩
    rw [restOfLine, run, List.takeWhile_eq_self_iff.2 hfeed]
    rfl
  rw [firstRule_of_extent_eq_zero hdate]
  exact firstRule_of_extent (by simp only [directive, hline]; omega) later

theorem meets_date {all later : List Rule} (h : EndsWithSeparator cs) :
    Rule.Meets all (⟨none, directive⟩ :: later) ⟨some .str, date⟩ cs := by
  obtain ⟨c, tail, rfl⟩ := List.exists_cons_of_ne_nil h.ne_nil
  by_cases hc : c = '#'
  swap
  · exact .keeps fun _ => by simp [date, hc]
  subst hc
  have htail := h.tail (h.tail_ne_nil (by decide))
  obtain ⟨d, rest, rfl⟩ := List.exists_cons_of_ne_nil htail.ne_nil
  cases hd : d.isDigit with
  | false => exact .keeps fun _ => by simp [date, hd]
  | true =>
    by_cases hlt : run (fun c => c ≠ '#' && c ≠ '\n') rest < rest.length
    · -- the body ends within the text, closed or not
      refine .keeps fun {more} _ => ?_
      simp only [date, List.cons_append, run_append_of_lt hlt,
        List.drop_append_of_le_length (Nat.le_of_lt hlt), List.head?_append]
      obtain ⟨e, behind, hbehind⟩ := List.exists_cons_of_ne_nil fun hnil =>
        absurd (List.drop_eq_nil_iff.1 hnil) (Nat.not_le.2 hlt)
      rw [hbehind]
      rfl
    · have hall : ∀ c ∈ rest, (c ≠ '#' && c ≠ '\n') = true :=
        List.takeWhile_eq_self_iff.1 <| (List.takeWhile_prefix _).eq_of_length <|
          Nat.le_antisymm (run_le_length _ rest) (Nat.not_lt.1 hlt)
      refine .drops (isDropped_of_openDate hall hd) ?_
      have hmore : ∀ c ∈ rest ++ ['x'], (c ≠ '#' && c ≠ '\n') = true :=
        List.forall_mem_append.2 ⟨hall, List.forall_mem_singleton.2 (by decide)⟩
      rw [List.cons_append, List.cons_append, isDropped_of_openDate hmore hd, List.length_append]
      rfl

/-- A quote behind which no quote closes a string is malformed. -/
theorem isError_of_quote (h : doubledBody (· ≠ '\n') cs = none) :
    (firstRule rules ('"' :: cs)).1 = some .error := by
  have hremark : remark ('"' :: cs) = 0 := by
    match cs with
    | [] | [_] | _ :: _ :: _ => simp [remark]
  have hstring : string ('"' :: cs) = 0 := by simp only [string, h]
  simp [rules, firstRule, run, isLineBlank, continuation, comment, hremark, newline, date,
    directive, hstring, brokenString, Nat.add_comm 1]

theorem meets_string {later : List Rule} (h : EndsWithSeparator cs) :
    Rule.Meets rules (⟨some .error, brokenString⟩ :: later) ⟨some .str, string⟩ cs := by
  obtain ⟨c, rest, rfl⟩ := List.exists_cons_of_ne_nil h.ne_nil
  by_cases hc : c = '"'
  · subst hc
    have hrest := h.tail (h.tail_ne_nil (by decide))
    cases hbody : doubledBody (· ≠ '\n') rest with
    | none =>
      refine .fails ?_
      rw [firstRule_of_extent_eq_zero (by simp only [string, hbody])]
      exact isError_of_extent (by simp [brokenString])
    | some n =>
      obtain ⟨hlt, hsame | ⟨behind, hbehind, hnone⟩⟩ := doubledBody_append hrest hbody
      · refine .keeps fun {more} _ => extent_eq_extent ?_
        obtain ⟨d, behind, hbehind⟩ := List.exists_cons_of_ne_nil (hrest.drop hlt).ne_nil
        have hmore : (rest ++ more).drop n = d :: (behind ++ more) := by
          rw [List.drop_append_of_le_length (Nat.le_of_lt hlt), hbehind, List.cons_append]
        rw [ofExtent_string, List.cons_append, one_andThen_cons, one_andThen_cons, orElse, orElse,
          andThen, andThen, hsame more, hbody, Option.bind_some, Option.bind_some, hmore, hbehind]
        rfl
      · refine .spoils (n := n) ?_ (Nat.succ_lt_succ hlt) ?_
        · simp only [string, hbody, hbehind]
          exact Nat.add_comm 1 n
        · rw [List.drop_succ_cons, hbehind]
          exact isError_of_quote hnone
  · exact .keeps fun _ => by simp [string, hc]

theorem endsEarly_radixNumber {radix : Char} {digit : Char → Bool}
    (hradix : separatorChars.any (·.toLower == radix) = false)
    (hdigit : separatorChars.any digit = false) :
    (ofExtent (radixNumber radix digit)).EndsEarly := by
  rw [ofExtent_radixNumber]
  exact .andThen (.one (by decide))
    (.andThen (.one hradix) (.andThen (.ofRun hdigit) (.run (by decide))))

theorem endsEarly_number : (ofExtent number).EndsEarly := by
  have hsuffix : (ofExtent numberSuffix).EndsEarly := by
    rw [ofExtent_numberSuffix]
    exact .orElse (.andThen (.one (by decide)) (.one (by decide))) (.one (by decide))
  rw [ofExtent_number]
  exact .andThen endsEarly_decimalNumber hsuffix.toTotal

theorem endsEarly_bracketedName : (ofExtent bracketedName).EndsEarly := by
  rw [ofExtent_bracketedName]
  exact .andThen (.one (by decide)) (.andThen endsEarly_name (.one (by decide)))

theorem meetEach_rules (h : EndsWithSeparator cs) : MeetEach rules cs rules :=
  ⟨.of_blank fun _ => isLineBlank_of_startsName, meets_continuation h,
    .of_takesLine takesLine_comment (.inl rfl) h, .of_takesLine takesLine_remark (.inl rfl) h,
    .of_one ofExtent_newline h, meets_date h, .of_takesLine takesLine_directive (.inl rfl) h,
    meets_string h, .of_takesLine takesLine_brokenString (.inr rfl) h,
    .of_endsEarly (endsEarly_radixNumber (by decide) (by decide)) h,
    .of_endsEarly (endsEarly_radixNumber (by decide) (by decide)) h,
    .of_endsEarly (endsEarly_radixNumber (by decide) (by decide)) h,
    .of_endsEarly endsEarly_number h, .of_endsEarly endsEarly_bracketedName h,
    .of_endsEarly endsEarly_name h, .of_one ofExtent_punctuation h, trivial⟩

end VisualBasic

theorem meetEach_rules {language : Language} (h : EndsWithSeparator cs) :
    MeetEach language.rules cs language.rules := by
  cases language with
  | csharp => exact CSharp.meetEach_rules h
  | visualBasic => exact VisualBasic.meetEach_rules h

end Lexis

/-! ## Texts -/

namespace Language

open Lexis

variable {language : Language} {cs more : List Char}

/-- The lexemes of a text. -/
def row (language : Language) (cs : List Char) : List Lexeme :=
  lexemes (tokensFrom language.rules 0 cs)

/-- The text keeps its lexemes in front of any name, if it does so in front of one: it ends with a
separator, which is not in a comment, and nothing in it is malformed. -/
structure StandsApart (language : Language) (cs : List Char) : Prop where
  separated : cs = [] ∨ EndsWithSeparator cs
  sound : ∀ l ∈ language.row cs, l.isError = false
  apart : language.row (cs ++ ['x']) = language.row cs ++ [.word "x"]

instance : DecidablePred language.StandsApart := fun cs =>
  decidable_of_iff ((cs = [] ∨ EndsWithSeparator cs) ∧ (∀ l ∈ language.row cs, l.isError = false) ∧
      language.row (cs ++ ['x']) = language.row cs ++ [.word "x"])
    ⟨fun h => ⟨h.1, h.2.1, h.2.2⟩, fun h => ⟨h.separated, h.sound, h.apart⟩⟩

theorem row_nil : language.row [] = [] := by
  rw [row, tokensFrom]
  rfl

/-- The first lexeme of a text, if it is not dropped, and what is behind it. -/
theorem row_cons {c : Char} {kind : Option LexemeKind} {n : Nat}
    (h : firstRule language.rules (c :: cs) = (kind, n)) :
    language.row (c :: cs) =
      (kind.map fun k => ⟨k, String.ofList (c :: cs.take n)⟩).toList ++
        language.row (cs.drop n) := by
  rw [row, tokensFrom, h]
  cases kind with
  | none => exact lexemes_tokensFrom language.rules _ _
  | some k => exact congrArg (_ :: ·) (lexemes_tokensFrom language.rules _ _)

theorem row_cons_append {c : Char} {kind : Option LexemeKind} {n : Nat}
    (h : firstRule language.rules (c :: cs ++ more) = (kind, n)) (hn : n ≤ cs.length) :
    language.row (c :: cs ++ more) =
      (kind.map fun k => ⟨k, String.ofList (c :: cs.take n)⟩).toList ++
        language.row (cs.drop n ++ more) := by
  rw [List.cons_append] at h ⊢
  rw [row_cons h, List.take_append_of_le_length hn, List.drop_append_of_le_length hn]

theorem firstRule_ne_error (h : ∀ l ∈ language.row cs, l.isError = false) (hne : cs ≠ []) :
    (firstRule language.rules cs).1 ≠ some .error := by
  obtain ⟨c, rest, rfl⟩ := List.exists_cons_of_ne_nil hne
  rcases hfirst : firstRule language.rules (c :: rest) with ⟨kind, n⟩
  rintro rfl
  rw [row_cons hfirst] at h
  cases h _ List.mem_cons_self

/-- A text that stands apart starts with the same lexeme in front of a name, and what is behind the
lexeme stands apart as well. -/
theorem StandsApart.exists_first {c : Char} (h : language.StandsApart (c :: cs)) :
    ∃ kind n, n ≤ cs.length ∧ firstRule language.rules (c :: cs) = (kind, n) ∧
      (∀ {more}, StartsWithName more → firstRule language.rules (c :: cs ++ more) = (kind, n)) ∧
      language.StandsApart (cs.drop n) := by
  have hseparated := h.separated.resolve_left (List.cons_ne_nil _ _)
  have hsound := firstRule_ne_error h.sound (List.cons_ne_nil _ _)
  rcases hfirst : firstRule language.rules (c :: cs) with ⟨kind, n⟩
  rw [hfirst] at hsound
  have hself := row_cons hfirst
  have hbehind : ∀ l ∈ language.row (cs.drop n), l.isError = false := fun l hl =>
    h.sound l (hself ▸ List.mem_append_right _ hl)
  have hlength : ∀ rule ∈ language.rules, rule.extent (c :: cs) ≤ (c :: cs).length :=
    fun _ hrule => (endsAtMarks_of_mem_rules hrule).le_length _
  have hx := h.apart
  rcases firstRule_append_of_meetEach (meetEach_rules hseparated) hlength hseparated hfirst
    hsound (fun hlt => firstRule_ne_error hbehind (hseparated.drop hlt).ne_nil) with
    ⟨hn, hsame⟩ | ⟨rfl, -, hdropped⟩
  · have hle : n ≤ cs.length := Nat.le_of_succ_le_succ hn
    refine ⟨kind, n, hle, rfl, hsame, ?_, hbehind, ?_⟩
    · rcases Nat.lt_or_eq_of_le hle with hlt | rfl
      · exact .inr (hseparated.drop (Nat.succ_lt_succ hlt))
      · exact .inl List.drop_length
    · rw [row_cons_append (hsame ⟨'x', [], rfl, by decide⟩) hle, hself, List.append_assoc] at hx
      exact List.append_cancel_left hx
  · -- the name would be dropped with the text
    rw [List.cons_append] at hdropped hx
    rw [row_cons hdropped] at hx
    simp [row_nil] at hx

/-- A text that stands apart has its lexemes, and the name behind it and all that follow have
theirs. -/
theorem row_append (h : language.StandsApart cs) (hmore : StartsWithName more) :
    language.row (cs ++ more) = language.row cs ++ language.row more := by
  induction hn : cs.length using Nat.strong_induction_on generalizing cs with
  | _ n ih =>
    subst hn
    cases cs with
    | nil =>
      rw [row_nil]
      rfl
    | cons c rest =>
      obtain ⟨kind, n, hle, hfirst, hsame, hapart⟩ := h.exists_first
      have hshorter : (rest.drop n).length < (c :: rest).length :=
        Nat.lt_succ_of_le (List.drop_sublist n rest).length_le
      rw [row_cons_append (hsame hmore) hle, row_cons hfirst, List.append_assoc,
        ih _ hshorter hapart rfl]

end Language

end ZeroAlloc
