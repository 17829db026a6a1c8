import ZeroAlloc.Proofs.Directive
import ZeroAlloc.Proofs.Lexis.Closing
import ZeroAlloc.Proofs.Lexis.Following
set_option autoImplicit false

/-! # Calls of the factory

A configuration takes for an identifier what starts with an alphabetic character; a name of a
program starts with a letter. Where a dotted identifier stands in front of a bracket, its parts come
back as words if all of them are names that are read as such (`lexemes_of_forall_readsName`), and
otherwise they do not (`forall_readsName_of_lexemes`).

So the call of a factory that a valid configuration names is read back exactly if the identifiers of
the name are names of the language, and no remark in Visual Basic (`readsCall_iff`). They need not
be: a letter number is alphabetic and no letter (`not_forall_readsCall`). -/

namespace ZeroAlloc

open Text (byteLength)

instance : DecidablePred Lexis.IsName
  | [] => .isFalse fun ⟨_, _, h, _⟩ => List.cons_ne_nil _ _ h.symm
  | c :: tail =>
    decidable_of_iff (Lexis.startsName c = true ∧ tail.all Lexis.continuesName = true)
      ⟨fun ⟨hc, htail⟩ => ⟨c, tail, rfl, hc, List.all_eq_true.1 htail⟩,
        fun ⟨_, _, h, hc, htail⟩ => by
          obtain ⟨rfl, rfl⟩ := List.cons.inj h
          exact ⟨hc, List.all_eq_true.2 htail⟩⟩

/-- The identifier is read as a name: it is one, and it starts no remark. -/
def Language.ReadsName (language : Language) (part : List Char) : Prop :=
  Lexis.IsName part ∧ (language = .visualBasic → Lexis.VisualBasic.remark part = 0)

instance (language : Language) (part : List Char) : Decidable (language.ReadsName part) :=
  inferInstanceAs (Decidable (_ ∧ _))

/-- The bracket in front of the type arguments of a call. -/
def Language.argumentBracket : Language → Char
  | csharp => '<'
  | visualBasic => '('

/-- The character ends a name: a point or the bracket. -/
def Language.EndsName (language : Language) (c : Char) : Prop :=
  c = '.' ∨ c = language.argumentBracket

/-- The lexemes of identifiers with points between them. -/
def dottedRow (parts : List (List Char)) : List Lexeme :=
  (parts.map fun part => Lexeme.word (String.ofList part)).intersperse (.punct ".")

namespace Lexis

variable {language : Language} {part more : List Char} {c : Char}

/-! ## Lexemes of a text -/

theorem lexemes_tokensFrom (rules : List Rule) (start : Nat) (cs : List Char) :
    lexemes (tokensFrom rules start cs) = lexemes (tokensFrom rules 0 cs) := by
  have hshift := tokensFrom_add rules 0 start cs
  rw [Nat.zero_add] at hshift
  rw [hshift, lexemes_shift]

/-- What a rule covers at the start of a text is its first lexeme. -/
theorem lexemes_of_covered {rules : List Rule} (covered : List Char) {rest : List Char}
    {kind : LexemeKind} (hne : covered ≠ [])
    (h : firstRule rules (covered ++ rest) = (some kind, covered.length - 1)) :
    lexemes (tokensFrom rules 0 (covered ++ rest)) =
      ⟨kind, String.ofList covered⟩ :: lexemes (tokensFrom rules 0 rest) := by
  obtain ⟨c, more, rfl⟩ := List.exists_cons_of_ne_nil hne
  have hcovered := tokensFrom_of_covered h 0
  rw [← List.cons_append] at hcovered
  rw [hcovered, ← lexemes_tokensFrom rules (0 + byteLength (c :: more)) rest]
  rfl

/-! ## Characters that end names -/

theorem isWordChar_of_endsName (hc : language.EndsName c) : Text.isWordChar c = false := by
  cases language <;> rcases hc with rfl | rfl <;> decide

theorem continuesName_of_endsName (hc : language.EndsName c) : continuesName c = false := by
  cases language <;> rcases hc with rfl | rfl <;> decide

theorem firstRule_of_endsName (hc : language.EndsName c) (cs : List Char) :
    firstRule language.rules (c :: cs) = (some .punct, 0) := by
  cases language with
  | csharp =>
    refine CSharp.firstRule_of_typeMark ?_ cs
    rcases hc with rfl | rfl <;> decide
  | visualBasic =>
    refine VisualBasic.firstRule_of_typeMark ?_ cs
    rcases hc with rfl | rfl <;> decide

theorem lexemes_of_endsName (hc : language.EndsName c) (cs : List Char) :
    lexemes (tokensFrom language.rules 0 (c :: cs)) =
      .punct (String.ofList [c]) :: lexemes (tokensFrom language.rules 0 cs) :=
  lexemes_of_covered [c] (List.cons_ne_nil _ _) (firstRule_of_endsName hc cs)

/-! ## Names in Visual Basic -/

namespace VisualBasic

/-- An underscore with something other than blank space behind it continues no line. -/
theorem continuation_cons_of_plain {d : Char} (hd : d ∉ [' ', '\t', '\n', '\r']) (cs : List Char) :
    continuation (c :: d :: cs) = 0 := by
  simp only [List.mem_cons, List.not_mem_nil, or_false, not_or] at hd
  obtain ⟨hspace, htab, hfeed, hreturn⟩ := hd
  by_cases hc : c = '_'
  · subst hc
    simp [continuation, run, hspace, htab, hfeed, hreturn]
  · simp [continuation, hc]

/-- What stands at the start of a part is a remark if it is one in front of the end of the name. -/
theorem remark_eq_zero_of_append (hc : Text.isWordChar c = false)
    (h : remark (part ++ c :: more) = 0) : remark part = 0 := by
  match part with
  | [] | [_] | [_, _] => rfl
  | r :: e :: m :: tail =>
    have hhead : (tail ++ c :: more).head?.any Text.isWordChar =
        tail.head?.any Text.isWordChar := by
      cases tail with
      | nil => exact hc
      | cons d tail => rfl
    rw [List.cons_append, List.cons_append, List.cons_append, remark, hhead] at h
    rw [remark]
    split at h
    · omega
    · exact if_neg ‹_›

theorem map_toLower_ne_of_remark_eq_zero (h : remark part = 0) :
    part.map Char.toLower ≠ "rem".toList := by
  intro hword
  match part with
  | [] | [_] | [_, _] | _ :: _ :: _ :: _ :: _ => simp at hword
  | [r, e, m] =>
    have hletters : [r.toLower, e.toLower, m.toLower] = ['r', 'e', 'm'] := hword.trans (by decide)
    simp only [List.cons.injEq, and_true] at hletters
    simp [remark, hletters] at h

/-- A remark leaves nothing of its line. -/
theorem lexemes_remark {cs : List Char} (hc : startsName c = true)
    (hcontinuation : continuation (c :: cs) = 0) (hremark : remark (c :: cs) ≠ 0) :
    lexemes (tokensFrom rules 0 (c :: cs)) = [] ∨
      ∃ ls, lexemes (tokensFrom rules 0 (c :: cs)) = ⟨.newline, "\n"⟩ :: ls := by
  match cs with
  | [] | [_] => exact absurd rfl hremark
  | e :: m :: tail =>
    have hextent : remark (c :: e :: m :: tail) = (2 + restOfLine tail) + 1 := by
      rw [remark] at hremark ⊢
      split at hremark
      · rw [if_pos ‹_›]
        omega
      · exact absurd rfl hremark
    have hne (d : Char) (hd : startsName d = false) : c ≠ d := ne_of_startsName hc hd
    have hblank : run isLineBlank (c :: e :: m :: tail) = 0 := by
      simp [run, isLineBlank, hne ' ' (by decide), hne '\t' (by decide), hne '\r' (by decide),
        hne '\x0c' (by decide)]
    have hcomment : comment (c :: e :: m :: tail) = 0 := by
      simp [comment, hne '\'' (by decide)]
    have hfirst : firstRule rules (c :: e :: m :: tail) = (none, 2 + restOfLine tail) := by
      rw [rules, firstRule_of_extent_eq_zero hblank, firstRule_of_extent_eq_zero hcontinuation,
        firstRule_of_extent_eq_zero hcomment]
      exact firstRule_of_extent hextent _
    have hrest : (e :: m :: tail).drop (2 + restOfLine tail) =
        tail.dropWhile (fun d => decide (d ≠ '\n')) := by
      rw [← List.drop_drop]
      exact drop_run _ tail
    rw [tokensFrom, hfirst]
    dsimp only
    rw [hrest, lexemes_tokensFrom]
    have hhead := List.head?_dropWhile_not (fun d => decide (d ≠ '\n')) tail
    cases hline : tail.dropWhile (fun d => decide (d ≠ '\n')) with
    | nil =>
      left
      rw [tokensFrom]
      rfl
    | cons d rest =>
      rw [hline] at hhead
      obtain rfl : d = '\n' := by simpa using hhead
      right
      exact ⟨_, lexemes_of_covered ['\n'] (List.cons_ne_nil _ _) (firstRule_feed rest)⟩

end VisualBasic

/-! ## One part of a name -/

/-- No part has blank space. -/
theorem notMem_blanks_of_isIdentifier (h : isIdentifier part = true) {d : Char} (hd : d ∈ part) :
    d ∉ [' ', '\t', '\n', '\r'] := by
  have hcontinues := continuesIdentifier_of_isIdentifier h d hd
  have hblanks : [' ', '\t', '\n', '\r'].any continuesIdentifier = false := by decide +kernel
  exact fun hblank => List.any_eq_false.1 hblanks d hblank hcontinues

/-- No line is continued within a part of a name. -/
theorem VisualBasic.continuation_eq_zero_of_isIdentifier {d : Char} (hd : language.EndsName d)
    (h : isIdentifier (c :: part) = true) (more : List Char) :
    continuation (c :: (part ++ d :: more)) = 0 := by
  cases part with
  | nil =>
    refine continuation_cons_of_plain ?_ more
    cases language <;> rcases hd with rfl | rfl <;> decide
  | cons e part =>
    exact continuation_cons_of_plain
      (notMem_blanks_of_isIdentifier h (List.mem_cons_of_mem c List.mem_cons_self)) _

/-- What starts an identifier and no name is malformed. -/
theorem firstRule_of_startsIdentifier (language : Language) (h : startsIdentifier c = true)
    (hc : startsName c = false) (cs : List Char) :
    firstRule language.rules (c :: cs) = (some .error, 0) := by
  simp only [startsName, Bool.or_eq_false_iff] at hc
  simp only [startsIdentifier, Text.isAlphabetic, hc, Bool.or_false, Bool.false_or,
    Bool.and_eq_true, Bool.not_eq_true'] at h
  exact firstRule_of_alphabeticSign language h.1 h.2 (by simp [startsName, hc]) cs

/-- A part that is read as a name is the first lexeme in front of what ends it. -/
theorem lexemes_of_readsName {d : Char} (hd : language.EndsName d)
    (hpart : isIdentifier part = true) (h : language.ReadsName part) (more : List Char) :
    lexemes (tokensFrom language.rules 0 (part ++ d :: more)) =
      .word (String.ofList part) :: lexemes (tokensFrom language.rules 0 (d :: more)) := by
  obtain ⟨hname, hremark⟩ := h
  refine lexemes_of_covered part hname.ne_nil ?_
  have hstops : StopsName (d :: more) := continuesName_of_endsName hd
  obtain ⟨c, tail, rfl, hc, htail⟩ := hname
  have hlength : (c :: tail).length - 1 = run continuesName (tail ++ d :: more) :=
    (run_append htail hstops).symm
  rw [hlength, List.cons_append]
  cases language with
  | csharp => exact CSharp.firstRule_of_startsName hc _
  | visualBasic =>
    have hname : IsName (c :: tail) := ⟨c, tail, rfl, hc, htail⟩
    have halone : VisualBasic.remark ((c :: tail) ++ []) = 0 := by
      rw [List.append_nil]
      exact hremark rfl
    refine VisualBasic.firstRule_of_continuation_eq_zero hc
      (VisualBasic.continuation_eq_zero_of_isIdentifier hd hpart more) ?_
    exact VisualBasic.remark_append_eq_zero hname halone
      (VisualBasic.map_toLower_ne_of_remark_eq_zero (hremark rfl)) hstops

/-- The first lexeme of a text that starts like a name goes as far as the name. -/
theorem isName_of_lexemes {rules : List Rule} {cs tail : List Char} {ls : List Lexeme}
    (hc : startsName c = true)
    (hfirst : firstRule rules (c :: cs) = (some .ident, run continuesName cs))
    (h : lexemes (tokensFrom rules 0 (c :: cs)) = .word (String.ofList (c :: tail)) :: ls) :
    IsName (c :: tail) := by
  rw [tokensFrom, hfirst] at h
  have hword := congrArg Lexeme.text (List.cons.inj h).1
  have htail : cs.take (run continuesName cs) = tail :=
    (List.cons.inj (String.ofList_inj.1 hword)).2
  refine ⟨c, tail, rfl, hc, fun d hd => ?_⟩
  rw [← htail, run, ← List.prefix_iff_eq_take.1 (List.takeWhile_prefix _)] at hd
  exact List.mem_takeWhile_imp hd

/-- A part that comes back as the first lexeme is read as a name. -/
theorem readsName_of_lexemes {d : Char} (hd : language.EndsName d)
    (hpart : isIdentifier part = true) {ls : List Lexeme}
    (h : lexemes (tokensFrom language.rules 0 (part ++ d :: more)) =
      .word (String.ofList part) :: ls) : language.ReadsName part := by
  cases part with
  | nil => cases hpart
  | cons c tail =>
    rw [List.cons_append] at h
    cases hc : startsName c with
    | false =>
      have hstarts : startsIdentifier c = true := by
        simp only [isIdentifier, Bool.and_eq_true] at hpart
        exact hpart.1
      rw [tokensFrom, firstRule_of_startsIdentifier language hstarts hc] at h
      cases (List.cons.inj h).1
    | true =>
      cases language with
      | csharp =>
        refine ⟨isName_of_lexemes hc (CSharp.firstRule_of_startsName hc _) h, fun hbasic => ?_⟩
        cases hbasic
      | visualBasic =>
        have hcontinuation := VisualBasic.continuation_eq_zero_of_isIdentifier hd hpart more
        by_cases hremark : VisualBasic.remark (c :: (tail ++ d :: more)) = 0
        · have hfirst :=
            VisualBasic.firstRule_of_continuation_eq_zero hc hcontinuation hremark
          exact ⟨isName_of_lexemes hc hfirst h,
            fun _ => VisualBasic.remark_eq_zero_of_append (isWordChar_of_endsName hd) hremark⟩
        · -- the part would be in a remark, which is dropped
          rcases VisualBasic.lexemes_remark hc hcontinuation hremark with hnone | ⟨_, hfeed⟩
          · cases hnone.symm.trans h
          · cases (List.cons.inj (hfeed.symm.trans h)).1

/-! ## Dotted names -/

theorem dottedRow_cons_cons (part next : List Char) (parts : List (List Char)) :
    dottedRow (part :: next :: parts) =
      .word (String.ofList part) :: .punct "." :: dottedRow (next :: parts) := rfl

theorem intercalate_cons_cons_append (part next : List Char) (parts : List (List Char))
    (more : List Char) : ['.'].intercalate (part :: next :: parts) ++ more =
      part ++ '.' :: (['.'].intercalate (next :: parts) ++ more) := by
  simp [List.intercalate_cons_cons]

theorem isError_of_mem_dottedRow {parts : List (List Char)} :
    ∀ l ∈ dottedRow parts, l.isError = false := by
  induction parts with
  | nil => exact List.forall_mem_nil _
  | cons part parts ih =>
    cases parts with
    | nil => exact List.forall_mem_singleton.2 rfl
    | cons next parts =>
      rw [dottedRow_cons_cons]
      exact List.forall_mem_cons.2 ⟨rfl, List.forall_mem_cons.2 ⟨rfl, ih⟩⟩

/-- Names with points between them are read as their words and points. -/
theorem lexemes_of_forall_readsName {parts : List (List Char)} (hne : parts ≠ [])
    (hparts : ∀ part ∈ parts, isIdentifier part = true)
    (h : ∀ part ∈ parts, language.ReadsName part) (more : List Char) :
    lexemes (tokensFrom language.rules 0
        (['.'].intercalate parts ++ language.argumentBracket :: more)) =
      dottedRow parts ++ .punct (String.ofList [language.argumentBracket]) ::
        lexemes (tokensFrom language.rules 0 more) := by
  induction parts with
  | nil => exact absurd rfl hne
  | cons part parts ih =>
    have hpart := hparts part List.mem_cons_self
    have hname := h part List.mem_cons_self
    cases parts with
    | nil =>
      rw [List.intercalate_singleton, lexemes_of_readsName (.inr rfl) hpart hname,
        lexemes_of_endsName (.inr rfl)]
      rfl
    | cons next parts =>
      rw [intercalate_cons_cons_append, lexemes_of_readsName (.inl rfl) hpart hname,
        lexemes_of_endsName (.inl rfl), ih (List.cons_ne_nil _ _)
          (fun other hother => hparts other (List.mem_cons_of_mem _ hother))
          fun other hother => h other (List.mem_cons_of_mem _ hother)]
      rfl

/-- Parts that come back as words with points between them are read as names. -/
theorem forall_readsName_of_lexemes {parts : List (List Char)}
    (hparts : ∀ part ∈ parts, isIdentifier part = true) {more : List Char} {ls : List Lexeme}
    (h : lexemes (tokensFrom language.rules 0
        (['.'].intercalate parts ++ language.argumentBracket :: more)) =
      dottedRow parts ++ .punct (String.ofList [language.argumentBracket]) :: ls) :
    ∀ part ∈ parts, language.ReadsName part := by
  induction parts with
  | nil => exact List.forall_mem_nil _
  | cons part parts ih =>
    have hpart := hparts part List.mem_cons_self
    cases parts with
    | nil =>
      rw [List.intercalate_singleton] at h
      exact List.forall_mem_singleton.2 (readsName_of_lexemes (.inr rfl) hpart h)
    | cons next parts =>
      rw [intercalate_cons_cons_append, dottedRow_cons_cons] at h
      have hname := readsName_of_lexemes (.inl rfl) hpart h
      rw [lexemes_of_readsName (.inl rfl) hpart hname, lexemes_of_endsName (.inl rfl)] at h
      refine List.forall_mem_cons.2 ⟨hname, ih ?_ ?_⟩
      · exact fun other hother => hparts other (List.mem_cons_of_mem _ hother)
      · exact (List.cons.inj (List.cons.inj h).2).2

end Lexis

/-- The qualifier of a call in its long or short form. -/
def Factory.qualifier? (factory : Factory) (qualified : Bool) : Option String :=
  if qualified then some factory.namespaceName else none

/-- The identifiers that the factory is named by in a call. -/
def Factory.nameParts (factory : Factory) (qualified : Bool) : List (List Char) :=
  (if qualified then dottedParts [] factory.namespaceName.toList else []) ++
    [factory.typeName.toList, factory.method.toList]

/-- A call of the factory is read back: nothing in it is malformed, and in front of its first
bracket stand the words that name the factory, with points between them. -/
structure Language.ReadsCall (language : Language) (qualified : Bool) (factory : Factory)
    (argument : String) : Prop where
  wellFormed : ∀ t ∈ Lexis.tokenize language.rules
      (language.invocation (factory.qualifier? qualified) factory argument), t.isError = false
  name : ∃ ls, lexemes (Lexis.tokenize language.rules
      (language.invocation (factory.qualifier? qualified) factory argument)) =
    dottedRow (factory.nameParts qualified) ++
      .punct (String.ofList [language.argumentBracket]) :: ls

/-! ## The text of a call -/

/-- The text of a call behind its first bracket. -/
def Language.argumentText (language : Language) (argument : String) : List Char :=
  match language with
  | csharp => argument.toList ++ ['>', '(', ')']
  | visualBasic => 'O' :: 'f' :: ' ' :: (argument.toList ++ [')', '(', ')'])

theorem dottedParts_ne_nil (part cs : List Char) : dottedParts part cs ≠ [] := by
  fun_induction dottedParts part cs with
  | case1 | case2 => exact List.cons_ne_nil _ _
  | case3 _ _ _ _ ih => exact ih

theorem intercalate_dottedParts (part cs : List Char) :
    ['.'].intercalate (dottedParts part cs) = part.reverse ++ cs := by
  fun_induction dottedParts part cs with
  | case1 part => simp
  | case2 part cs ih =>
    obtain ⟨next, parts, hparts⟩ := List.exists_cons_of_ne_nil (dottedParts_ne_nil [] cs)
    rw [hparts] at ih ⊢
    rw [List.intercalate_cons_cons, ih]
    simp
  | case3 part c cs _ ih =>
    rw [ih]
    simp

theorem intercalate_append_cons {parts : List (List Char)} (hne : parts ≠ []) (next : List Char)
    (more : List (List Char)) : ['.'].intercalate (parts ++ next :: more) =
      ['.'].intercalate parts ++ '.' :: ['.'].intercalate (next :: more) := by
  induction parts with
  | nil => exact absurd rfl hne
  | cons part parts ih =>
    cases parts with
    | nil => simp [List.intercalate_cons_cons]
    | cons second parts =>
      rw [List.cons_append, List.cons_append, List.intercalate_cons_cons, ← List.cons_append,
        ih (List.cons_ne_nil _ _), List.intercalate_cons_cons]
      simp

theorem intercalate_nameParts (factory : Factory) (qualified : Bool) :
    ['.'].intercalate (factory.nameParts qualified) =
      ((factory.qualifier? qualified).elim [] fun q => q.toList ++ ['.']) ++
        factory.typeName.toList ++ '.' :: factory.method.toList := by
  cases qualified with
  | false => simp [Factory.nameParts, Factory.qualifier?, List.intercalate_cons_cons]
  | true =>
    have hne := dottedParts_ne_nil [] factory.namespaceName.toList
    simp [Factory.nameParts, Factory.qualifier?, intercalate_append_cons hne,
      intercalate_dottedParts, List.intercalate_cons_cons]

theorem Language.toList_invocation (language : Language) (qualified : Bool) (factory : Factory)
    (argument : String) :
    (language.invocation (factory.qualifier? qualified) factory argument).toList =
      ['.'].intercalate (factory.nameParts qualified) ++
        language.argumentBracket :: language.argumentText argument := by
  rw [intercalate_nameParts]
  cases language <;> cases qualified <;>
    simp [invocation, Factory.qualifier?, argumentBracket, argumentText]

/-! ## Behind the name -/

namespace Lexis

theorem forall_isError_iff (ts : List Token) :
    (∀ t ∈ ts, t.isError = false) ↔ ∀ l ∈ lexemes ts, l.isError = false := by
  rw [lexemes, List.forall_mem_map]

/-- A space in front of a text joins its blank space. -/
theorem VisualBasic.lexemes_space (cs : List Char) :
    lexemes (tokensFrom rules 0 (' ' :: cs)) = lexemes (tokensFrom rules 0 cs) := by
  by_cases hblank : cs.head?.any isLineBlank = true
  · cases cs with
    | nil => cases hblank
    | cons c cs =>
      have hc : isLineBlank c = true := hblank
      have hrun : run isLineBlank (c :: cs) = run isLineBlank cs + 1 := by simp [run, hc]
      have hspace : run isLineBlank (' ' :: c :: cs) = run isLineBlank cs + 1 + 1 := by
        simp [run, hc, show isLineBlank ' ' = true by decide]
      have hfirst : firstRule rules (c :: cs) = (none, run isLineBlank cs) :=
        firstRule_of_extent hrun _
      have hfirst' : firstRule rules (' ' :: c :: cs) = (none, run isLineBlank cs + 1) :=
        firstRule_of_extent hspace _
      rw [tokensFrom, hfirst', tokensFrom, hfirst]
      dsimp only
      rw [List.drop_succ_cons]
      exact (lexemes_tokensFrom rules _ _).trans (lexemes_tokensFrom rules _ _).symm
  · rw [tokensFrom, firstRule_space (by simpa using hblank)]
    exact lexemes_tokensFrom rules _ cs

/-- The word in front of a type argument in Visual Basic. -/
theorem VisualBasic.lexemes_of (cs : List Char) :
    lexemes (tokensFrom rules 0 ('O' :: 'f' :: ' ' :: cs)) =
      .word "Of" :: lexemes (tokensFrom rules 0 cs) := by
  have hfirst : firstRule rules ('O' :: 'f' :: ' ' :: cs) = (some .ident, 1) :=
    firstRule_of_continuation_eq_zero (by decide) (continuation_cons_of_plain (by decide) _)
      (remark_eq_zero (by decide) _)
  exact (lexemes_of_covered ['O', 'f'] (List.cons_ne_nil _ _) hfirst).trans
    (congrArg _ (lexemes_space cs))

end Lexis

/-- Behind the first bracket of a call, nothing is malformed that is well formed in the type
argument. -/
theorem Language.isError_argumentText {language : Language} {argument : String}
    (h : ∀ t ∈ Lexis.tokenize language.rules argument, t.isError = false) :
    ∀ t ∈ Lexis.tokensFrom language.rules 0 (language.argumentText argument),
      t.isError = false := by
  have hrules : ∀ rule ∈ language.rules, rule.EndsAtMarks :=
    fun _ => Lexis.endsAtMarks_of_mem_rules
  cases language with
  | csharp =>
    have hmarks : ['>', '(', ')'] ⊆ Lexis.CSharp.typeMarkChars := by decide
    exact Lexis.isError_append_of_isClosing hrules (fun _ hc => hc)
      (fun c hc => Lexis.CSharp.firstRule_of_typeMark (hmarks hc)) h
  | visualBasic =>
    have hclosing : [')', '(', ')'] ⊆ Lexis.closingMarks := by decide
    have hmarks : [')', '(', ')'] ⊆ Lexis.VisualBasic.typeMarkChars := by decide
    have hbehind := Lexis.isError_append_of_isClosing hrules (fun _ hc => hclosing hc)
      (fun c hc => Lexis.VisualBasic.firstRule_of_typeMark (hmarks hc)) h
    have htext : lexemes (Lexis.tokensFrom visualBasic.rules 0
        (visualBasic.argumentText argument)) = .word "Of" :: lexemes (Lexis.tokensFrom
          visualBasic.rules 0 (argument.toList ++ [')', '(', ')'])) :=
      Lexis.VisualBasic.lexemes_of _
    rw [Lexis.forall_isError_iff] at hbehind ⊢
    rw [htext]
    exact List.forall_mem_cons.2 ⟨rfl, hbehind⟩

/-! ## Calls -/

section Call

variable {config : Config} (hconfig : config.error? = none) {language : Language}
  {qualified : Bool} {argument : String}

include hconfig

/-- A valid configuration names the factory by identifiers. -/
theorem Config.isIdentifier_of_mem_nameParts :
    ∀ part ∈ config.factory.nameParts qualified, isIdentifier part = true := by
  have hnamespace : isDottedIdentifier config.factory.namespaceName.toList = true :=
    accepts_of_error?_eq_none hconfig .namespaceName
  have htype : isIdentifier config.factory.typeName.toList = true :=
    accepts_of_error?_eq_none hconfig .typeName
  have hmethod : isIdentifier config.factory.method.toList = true :=
    accepts_of_error?_eq_none hconfig .method
  have hmembers : ∀ part ∈ [config.factory.typeName.toList, config.factory.method.toList],
      isIdentifier part = true :=
    List.forall_mem_cons.2 ⟨htype, List.forall_mem_singleton.2 hmethod⟩
  rw [Factory.nameParts, List.forall_mem_append]
  refine ⟨?_, hmembers⟩
  cases qualified with
  | false => exact List.forall_mem_nil _
  | true => exact List.all_eq_true.1 hnamespace

theorem Language.ReadsCall.readsName
    (h : language.ReadsCall qualified config.factory argument) :
    ∀ part ∈ config.factory.nameParts qualified, language.ReadsName part := by
  obtain ⟨ls, hrow⟩ := h.name
  rw [Lexis.tokenize, toList_invocation] at hrow
  exact Lexis.forall_readsName_of_lexemes (config.isIdentifier_of_mem_nameParts hconfig) hrow

/-- The call of the factory for a well-formed type argument is read back exactly if all identifiers
of its name are read as names. -/
theorem Language.readsCall_iff
    (hargument : ∀ t ∈ Lexis.tokenize language.rules argument, t.isError = false) :
    language.ReadsCall qualified config.factory argument ↔
      ∀ part ∈ config.factory.nameParts qualified, language.ReadsName part := by
  refine ⟨fun h => h.readsName hconfig, fun h => ?_⟩
  have hne : config.factory.nameParts qualified ≠ [] :=
    List.append_ne_nil_of_right_ne_nil _ (List.cons_ne_nil _ _)
  have hrow := Lexis.lexemes_of_forall_readsName hne
    (config.isIdentifier_of_mem_nameParts hconfig) h (language.argumentText argument)
  rw [← toList_invocation] at hrow
  refine ⟨?_, _, hrow⟩
  have hbehind := isError_argumentText hargument
  rw [Lexis.forall_isError_iff] at hbehind ⊢
  rw [Lexis.tokenize, hrow]
  exact List.forall_mem_append.2
    ⟨Lexis.isError_of_mem_dottedRow, List.forall_mem_cons.2 ⟨rfl, hbehind⟩⟩

end Call

theorem Language.readsCall_iff_standard :
    Config.standard.error? = none ∧
      (∀ t ∈ Lexis.tokenize visualBasic.rules "Integer()", t.isError = false) ∧
      visualBasic.ReadsCall true Config.standard.factory "Integer()" :=
  have herror : Config.standard.error? = none := by decide +kernel
  have hargument : ∀ t ∈ Lexis.tokenize visualBasic.rules "Integer()", t.isError = false := by
    decide +kernel
  ⟨herror, hargument, (readsCall_iff herror hargument).2 (by decide +kernel)⟩

/-! ## A letter number -/

/-- A configuration with a letter number for the method. -/
def Config.letterNumber : Config :=
  { Config.standard with factory := ⟨"System", "Array", "Ⅰ"⟩ }

theorem Lexis.startsName_letterNumber : startsName 'Ⅰ' = false := by
  have hascii : Text.isAscii 'Ⅰ' = false := by decide
  have hletter : Text.letterRanges.contains 'Ⅰ' = false := by
    rw [Text.Ranges.contains, ← Array.any_toList]
    decide +kernel
  rw [startsName, Text.isLetter, hascii, hletter]
  rfl

/-- A letter number is alphabetic. -/
theorem isIdentifier_letterNumber : isIdentifier ['Ⅰ'] = true := by
  have hascii : Text.isAscii 'Ⅰ' = false := by decide
  have hsign : Text.alphabeticSignRanges.contains 'Ⅰ' = true := by
    rw [Text.Ranges.contains, ← Array.any_toList]
    decide +kernel
  simp [isIdentifier, startsIdentifier, Text.isAlphabetic, hascii, hsign]

theorem Config.error?_letterNumber : letterNumber.error? = none := by
  have haccepts (field : FactoryField) :
      field.accepts (field.value letterNumber.factory) = true := by
    cases field with
    | namespaceName => decide +kernel
    | typeName => decide +kernel
    | method => exact isIdentifier_letterNumber
  have hpatterns : letterNumber.excludedPaths = [] := rfl
  rw [error?, hpatterns]
  simp [fieldError?, haccepts]

/-- A valid configuration can name the method by a letter number, which starts no name. -/
theorem Language.not_forall_readsCall :
    ¬ ∀ (config : Config) (language : Language) (qualified : Bool) (argument : String),
      config.error? = none →
      (∀ t ∈ Lexis.tokenize language.rules argument, t.isError = false) →
      language.ReadsCall qualified config.factory argument := by
  intro hall
  have hcall := hall .letterNumber csharp false "int" Config.error?_letterNumber
    (by decide +kernel)
  have hmethod : ['Ⅰ'] ∈ Config.letterNumber.factory.nameParts false := by decide
  obtain ⟨⟨c, tail, hname, hc, -⟩, -⟩ := hcall.readsName Config.error?_letterNumber _ hmethod
  rw [← (List.cons.inj hname).1, Lexis.startsName_letterNumber] at hc
  cases hc

end ZeroAlloc
