import ZeroAlloc.Language
import ZeroAlloc.Proofs.Lexis.Tiling
import ZeroAlloc.Proofs.Text.Case
set_option autoImplicit false

/-! # Lexemes of packed texts

A row of lexemes may be written with a space here and there, or with none where nothing runs
together. Its text has the same lexemes again (`Spells.lexemes_tokensFrom`). Names and the
punctuation of types are such lexemes in either language (`relexes_of_mem_tokenize`). -/

namespace ZeroAlloc

/-- The punctuation that types are spelled with. -/
def Language.typeMarks : Language → List String
  | csharp => [".", ",", "?", "*", ":", "<", ">", "[", "]", "(", ")"]
  | visualBasic => [".", ",", "?", "(", ")"]

namespace Lexis

/-! ## Rows and their texts -/

/-- The text is the row, lexeme by lexeme, with spaces in between: at each place the first rule that
applies covers the next lexeme, or a single space. -/
inductive Spells (rules : List Rule) : List Lexeme → List Char → Prop where
  | nil : Spells rules [] []
  | lexeme {l : Lexeme} {ls : List Lexeme} {cs : List Char} (hne : l.text.toList ≠ [])
      (h : firstRule rules (l.text.toList ++ cs) = (some l.kind, l.text.toList.length - 1))
      (more : Spells rules ls cs) : Spells rules (l :: ls) (l.text.toList ++ cs)
  | space {ls : List Lexeme} {cs : List Char} (h : firstRule rules (' ' :: cs) = (none, 0))
      (more : Spells rules ls cs) : Spells rules ls (' ' :: cs)

theorem Spells.lexemes_tokensFrom {rules : List Rule} {ls : List Lexeme} {cs : List Char}
    (h : Spells rules ls cs) (start : Nat) : lexemes (tokensFrom rules start cs) = ls := by
  induction h generalizing start with
  | nil => rw [tokensFrom, lexemes, List.map_nil]
  | @lexeme l ls cs hne h more ih =>
    obtain ⟨c, tail, htext⟩ := List.exists_cons_of_ne_nil hne
    rw [htext, List.cons_append, List.length_cons, Nat.add_sub_cancel] at h
    rw [htext, List.cons_append, tokensFrom, h]
    dsimp only
    rw [List.take_left, List.drop_left, lexemes, List.map_cons]
    congr 1
    · rw [← htext, String.ofList_toList]
    · exact ih _
  | space h more ih =>
    rw [tokensFrom, h]
    exact ih _

/-- No name goes on into the text. -/
def StopsName (cs : List Char) : Prop :=
  cs.head?.any continuesName = false

/-- The lexeme is lexed again from its text, whatever follows on the same line, if only no name goes
on into it. A space before the text is a piece of its own, and punctuation ends a name. -/
structure Relexes (rules : List Rule) (l : Lexeme) : Prop where
  ne_nil : l.text.toList ≠ []
  notMem_feed : '\n' ∉ l.text.toList
  stopsName : l.isIdent = false → StopsName l.text.toList
  firstRule : ∀ more, '\n' ∉ more → (l.isIdent = true → StopsName more) →
    firstRule rules (l.text.toList ++ more) = (some l.kind, l.text.toList.length - 1)
  space : ∀ more, Lexis.firstRule rules (' ' :: (l.text.toList ++ more)) = (none, 0)

section Packed

variable {rules : List Rule} {ls more : List Lexeme} {cs : List Char}

theorem Relexes.stopsName_append {l : Lexeme} (h : Relexes rules l) (hident : l.isIdent = false)
    (cs : List Char) : StopsName (l.text.toList ++ cs) := by
  have hstops := h.stopsName hident
  obtain ⟨c, tail, htext⟩ := List.exists_cons_of_ne_nil h.ne_nil
  rw [htext] at hstops ⊢
  exact hstops

/-- No name goes on into a packed row without words. -/
theorem stopsName_packed (hls : ∀ l ∈ ls, Relexes rules l ∧ l.isIdent = false)
    (hcs : StopsName cs) : StopsName ((ls.flatMap fun l => l.text.toList) ++ cs) := by
  cases ls with
  | nil => exact hcs
  | cons l ls =>
    obtain ⟨hl, hident⟩ := hls l List.mem_cons_self
    rw [List.flatMap_cons, List.append_assoc]
    exact hl.stopsName_append hident _

/-- A row without words can be packed. -/
theorem Spells.append_packed (hls : ∀ l ∈ ls, Relexes rules l ∧ l.isIdent = false)
    (h : Spells rules more cs) (hfeed : '\n' ∉ cs) :
    Spells rules (ls ++ more) ((ls.flatMap fun l => l.text.toList) ++ cs) ∧
      '\n' ∉ (ls.flatMap fun l => l.text.toList) ++ cs := by
  induction ls with
  | nil => exact ⟨h, hfeed⟩
  | cons l ls ih =>
    obtain ⟨hspells, hfeed⟩ := ih fun m hm => hls m (List.mem_cons_of_mem l hm)
    obtain ⟨hl, hident⟩ := hls l List.mem_cons_self
    rw [List.flatMap_cons, List.append_assoc]
    refine ⟨.lexeme hl.ne_nil (hl.firstRule _ hfeed fun h => ?_) hspells, ?_⟩
    · rw [hident] at h
      cases h
    · rw [List.mem_append]
      exact not_or.2 ⟨hl.notMem_feed, hfeed⟩

theorem exists_toList_spell_cons (l : Lexeme) (ls : List Lexeme) :
    ∃ rest, (ElementType.spell (l :: ls)).toList = l.text.toList ++ rest := by
  cases ls with
  | nil => exact ⟨[], (List.append_nil _).symm⟩
  | cons next ls =>
    rw [ElementType.spell, String.toList_append, String.toList_append, List.append_assoc]
    exact ⟨_, rfl⟩

/-- A row can be written as types are. -/
theorem Spells.append_spell (hls : ∀ l ∈ ls, Relexes rules l) (h : Spells rules more cs)
    (hfeed : '\n' ∉ cs) (hstops : StopsName cs) :
    Spells rules (ls ++ more) ((ElementType.spell ls).toList ++ cs) ∧
      '\n' ∉ (ElementType.spell ls).toList ++ cs := by
  fun_induction ElementType.spell ls with
  | case1 => exact ⟨h, hfeed⟩
  | case2 l =>
    have hl := hls l List.mem_cons_self
    refine ⟨.lexeme hl.ne_nil (hl.firstRule _ hfeed fun _ => hstops) h, ?_⟩
    rw [List.mem_append]
    exact not_or.2 ⟨hl.notMem_feed, hfeed⟩
  | case3 l next ls ih =>
    obtain ⟨hspells, hfeed⟩ := ih fun m hm => hls m (List.mem_cons_of_mem l hm)
    have hl := hls l List.mem_cons_self
    have hnext := hls next (List.mem_cons_of_mem l List.mem_cons_self)
    obtain ⟨rest, hrest⟩ := exists_toList_spell_cons next ls
    have hline : '\n' ∉ l.text.toList ++ ((ElementType.spell (next :: ls)).toList ++ cs) := by
      rw [List.mem_append]
      exact not_or.2 ⟨hl.notMem_feed, hfeed⟩
    rw [String.toList_append, String.toList_append, List.append_assoc, List.append_assoc]
    by_cases hspaced : ElementType.spaced l next = true
    · rw [if_pos hspaced]
      have hfeed' : '\n' ∉ ' ' :: ((ElementType.spell (next :: ls)).toList ++ cs) := by
        simpa using hfeed
      refine ⟨.lexeme hl.ne_nil (hl.firstRule _ hfeed' fun _ => rfl) (.space ?_ hspells), ?_⟩
      · rw [hrest, List.append_assoc]
        exact hnext.space _
      · simpa using hline
    · rw [if_neg hspaced]
      refine ⟨.lexeme hl.ne_nil (hl.firstRule _ hfeed fun hident => ?_) hspells, hline⟩
      -- of two words one behind the other, the first would be spaced
      have hpunct : next.isIdent = false := by
        simp only [ElementType.spaced, Bool.or_eq_true, Bool.and_eq_true, not_or,
          not_and] at hspaced
        simp only [Lexeme.isIdent, decide_eq_true_eq, decide_eq_false_iff_not] at hident ⊢
        exact fun h => (hspaced.1 (by simp [hident])).1 (by simp [h])
      rw [hrest, List.append_assoc]
      exact hnext.stopsName_append hpunct _

end Packed

/-! ## Names -/

/-- A name starts with none of the characters that other rules look for. -/
theorem ne_of_startsName {c d : Char} (hc : startsName c = true) (hd : startsName d = false) :
    c ≠ d := by
  rintro rfl
  rw [hc] at hd
  cases hd

/-- The blank characters outside ASCII. -/
def wideBlanks : List Nat := [
  0x85, 0xA0, 0x1680, 0x2000, 0x2001, 0x2002, 0x2003, 0x2004, 0x2005, 0x2006, 0x2007, 0x2008,
  0x2009, 0x200A, 0x2028, 0x2029, 0x202F, 0x205F, 0x3000]

/-- No character outside ASCII is blank that lies in ranges without blank characters. -/
theorem isBlank_of_ranges {ranges : Text.Ranges}
    (hranges : ∀ n ∈ wideBlanks,
      (ranges.toList.any fun range => range.1 ≤ n && n ≤ range.2) = false)
    {c : Char} (hascii : Text.isAscii c = false) (hc : ranges.contains c = true) :
    Text.isBlank c = false := by
  rw [Bool.eq_false_iff]
  intro hblank
  have hnone := hranges c.toNat (by
    simp only [Text.isBlank, Bool.or_eq_true, Bool.and_eq_true, decide_eq_true_eq,
      beq_iff_eq] at hblank
    simp only [Text.isAscii, decide_eq_false_iff_not] at hascii
    simp only [wideBlanks, List.mem_cons, List.not_mem_nil, or_false]
    omega)
  rw [Array.any_toList] at hnone
  exact Bool.false_ne_true (hnone.symm.trans hc)

/-- No blank character outside ASCII is a letter. -/
theorem isBlank_of_letterRanges {c : Char} (hascii : Text.isAscii c = false)
    (hc : Text.letterRanges.contains c = true) : Text.isBlank c = false :=
  isBlank_of_ranges (by decide +kernel) hascii hc

theorem isBlank_of_startsName {c : Char} (hc : startsName c = true) : Text.isBlank c = false := by
  cases hascii : Text.isAscii c with
  | false =>
    simp only [startsName, Text.isLetter, hascii, Bool.false_eq_true, if_false, Bool.or_eq_true,
      beq_iff_eq] at hc
    rcases hc with rfl | hc
    · rfl
    · exact isBlank_of_letterRanges hascii hc
  | true =>
    have hall : ∀ n ∈ [0x09, 0x0A, 0x0B, 0x0C, 0x0D, 0x20], startsName (Char.ofNat n) = false := by
      decide +kernel
    rw [Bool.eq_false_iff]
    intro hblank
    have hname := hall c.toNat (by
      simp only [Text.isBlank, Bool.or_eq_true, Bool.and_eq_true, decide_eq_true_eq,
        beq_iff_eq] at hblank
      simp only [Text.isAscii, decide_eq_true_eq] at hascii
      simp only [List.mem_cons, List.not_mem_nil, or_false]
      omega)
    rw [Char.ofNat_toNat, hc] at hname
    cases hname

theorem isDigit_of_startsName {c : Char} (hc : startsName c = true) : c.isDigit = false := by
  have hall : ∀ n, n < 10 → startsName (Char.ofNat (n + 48)) = false := by decide +kernel
  rw [Bool.eq_false_iff]
  intro hdigit
  have hcode : 48 ≤ c.toNat ∧ c.toNat ≤ 57 := by
    simp only [Char.isDigit, Bool.and_eq_true, decide_eq_true_eq,
      UInt32.le_iff_toNat_le] at hdigit
    exact hdigit
  have hname := hall (c.toNat - 48) (by omega)
  rw [Nat.sub_add_cancel hcode.1, Char.ofNat_toNat, hc] at hname
  cases hname

/-- The characters are a name. -/
def IsName (cs : List Char) : Prop :=
  ∃ c tail, cs = c :: tail ∧ startsName c = true ∧ ∀ d ∈ tail, continuesName d = true

/-- A name is read as far as it goes. -/
theorem isName_take {cs : List Char} {n : Nat} (h : name cs = n + 1) :
    IsName (cs.take (n + 1)) := by
  cases cs with
  | nil => cases h
  | cons c cs =>
    rw [name] at h
    split at h
    · rename_i hc
      obtain rfl : run continuesName cs = n := by omega
      refine ⟨c, cs.take (run continuesName cs), rfl, hc, ?_⟩
      rw [run, ← List.prefix_iff_eq_take.1 (List.takeWhile_prefix _)]
      exact List.all_eq_true.1 List.all_takeWhile
    · cases h

theorem run_append {p : Char → Bool} {tail more : List Char} (htail : ∀ d ∈ tail, p d = true)
    (hmore : more.head?.any p = false) : run p (tail ++ more) = tail.length := by
  rw [run, List.takeWhile_append_of_pos htail, List.length_append]
  cases more with
  | nil => rfl
  | cons c more =>
    rw [List.takeWhile_cons_of_neg (by simpa using hmore)]
    rfl

theorem IsName.notMem_feed {cs : List Char} (h : IsName cs) : '\n' ∉ cs := by
  obtain ⟨c, tail, rfl, hc, htail⟩ := h
  rintro (_ | ⟨_, hmem⟩)
  · exact absurd hc (by decide)
  · exact absurd (htail _ hmem) (by decide)

theorem IsName.ne_nil {cs : List Char} (h : IsName cs) : cs ≠ [] := by
  obtain ⟨c, tail, rfl, -⟩ := h
  exact List.cons_ne_nil c tail

theorem IsName.name_append {cs more : List Char} (h : IsName cs) (hmore : StopsName more) :
    name (cs ++ more) = cs.length := by
  obtain ⟨c, tail, rfl, hc, htail⟩ := h
  rw [List.cons_append, name, if_pos hc, run_append htail hmore, List.length_cons, Nat.add_comm]

/-- The class of a lexeme comes from a rule that applies, and none of another class in front of it
does. -/
theorem extent_eq_zero_of_firstRule {before after : List Rule} {cs : List Char} {kind : LexemeKind}
    {n : Nat} (h : firstRule (before ++ after) cs = (some kind, n))
    (hkind : ∀ rule ∈ before, rule.kind ≠ some kind) : ∀ rule ∈ before, rule.extent cs = 0 := by
  induction before with
  | nil => exact List.forall_mem_nil _
  | cons rule before ih =>
    rw [List.cons_append, firstRule] at h
    split at h
    · rename_i hextent
      exact List.forall_mem_cons.2
        ⟨hextent, ih h fun other hother => hkind other (List.mem_cons_of_mem _ hother)⟩
    · exact absurd (congrArg Prod.fst h) (hkind rule List.mem_cons_self)

/-- Punctuation of one character is lexed again if the rules give it whatever follows. -/
theorem relexes_of_mem_marks {rules : List Rule} {marks : List String} {chars : List Char}
    {blank : Char → Bool} (hmarks : marks = chars.map fun c => String.ofList [c])
    (hplain : chars.all (fun c => c != '\n' && !continuesName c && !blank c) = true)
    (hfirst : ∀ c ∈ chars, ∀ more, firstRule rules (c :: more) = (some .punct, 0))
    (hspace : ∀ c more, blank c = false → firstRule rules (' ' :: c :: more) = (none, 0))
    {p : String} (hp : p ∈ marks) : Relexes rules ⟨.punct, p⟩ := by
  rw [hmarks] at hp
  obtain ⟨c, hc, rfl⟩ := List.mem_map.1 hp
  have hchar := List.all_eq_true.1 hplain c hc
  simp only [Bool.and_eq_true, bne_iff_ne, Bool.not_eq_true'] at hchar
  obtain ⟨⟨hfeed, hstops⟩, hblank⟩ := hchar
  have htext : (String.ofList [c]).toList = [c] := String.toList_ofList
  refine ⟨?_, ?_, fun _ => ?_, fun more _ _ => ?_, fun more => ?_⟩
  · rw [htext]
    exact List.cons_ne_nil _ _
  · rw [htext, List.mem_singleton]
    exact hfeed.symm
  · rw [htext]
    exact hstops
  · rw [htext]
    exact hfirst c hc more
  · rw [htext]
    exact hspace c more hblank

/-! ## C# -/

namespace CSharp

section Name

variable {c : Char} (hc : startsName c = true)
include hc

theorem firstRule_of_startsName (cs : List Char) :
    firstRule rules (c :: cs) = (some .ident, run continuesName cs) := by
  have hne (d : Char) (hd : startsName d = false) : c ≠ d := ne_of_startsName hc hd
  have hquote : c ≠ '"' := hne _ (by decide)
  have hdollar : c ≠ '$' := hne _ (by decide)
  have hmark : c ≠ '@' := hne _ (by decide)
  simp [rules, firstRule, run, lineComment, blockComment, openComment, directive, verbatimString,
    verbatimOpening, string, stringOpening, charLiteral, brokenLiteral, radixNumber, number,
    decimalNumber, wholePart, identifier, name, Nat.add_comm 1, hne '/' (by decide),
    hne '#' (by decide), hquote, hdollar, hmark, hne '\'' (by decide), hne '0' (by decide),
    isBlank_of_startsName hc, isDigit_of_startsName hc, hc]

/-- A name behind an `@`. -/
theorem firstRule_of_at (cs : List Char) :
    firstRule rules ('@' :: c :: cs) = (some .ident, run continuesName cs + 1) := by
  have hne (d : Char) (hd : startsName d = false) : c ≠ d := ne_of_startsName hc hd
  have hquote : c ≠ '"' := hne _ (by decide)
  have hdollar : c ≠ '$' := hne _ (by decide)
  have hmark : c ≠ '@' := hne _ (by decide)
  have hdigit : Char.isDigit '@' = false := by decide
  have hblank : Text.isBlank '@' = false := by decide
  simp [rules, firstRule, run, lineComment, blockComment, openComment, directive, verbatimString,
    verbatimOpening, string, stringOpening, charLiteral, brokenLiteral, radixNumber, number,
    decimalNumber, wholePart, identifier, name, Nat.add_comm 1, hquote, hdollar, hmark,
    hne '\'' (by decide), hdigit, hblank, hc]

end Name

theorem firstRule_space {cs : List Char} (hcs : cs.head?.any Text.isBlank = false) :
    firstRule rules (' ' :: cs) = (none, 0) := by
  have hrun : run Text.isBlank (' ' :: cs) = 1 :=
    @run_append _ [' '] _ (List.forall_mem_singleton.2 rfl) hcs
  exact firstRule_of_extent hrun _

/-- The characters are a name, which an `@` may precede. -/
def IsIdentifier (cs : List Char) : Prop :=
  ∃ mark more, cs = mark ++ more ∧ (mark = [] ∨ mark = ['@']) ∧ IsName more

theorem isIdentifier_take {cs : List Char} {n : Nat} (h : identifier cs = n + 1) :
    IsIdentifier (cs.take (n + 1)) := by
  unfold identifier at h
  split at h
  · rename_i cs
    split at h
    · cases h
    · rename_i m hne
      obtain ⟨m, hm⟩ := Nat.exists_eq_succ_of_ne_zero hne
      rw [hm] at h
      obtain rfl : m + 1 = n := by omega
      exact ⟨['@'], _, rfl, .inr rfl, isName_take hm⟩
  · exact ⟨[], _, rfl, .inl rfl, isName_take h⟩

theorem relexes_of_isIdentifier {l : Lexeme} (hkind : l.kind = .ident)
    (h : IsIdentifier l.text.toList) : Relexes rules l where
  ne_nil := by
    obtain ⟨mark, more, heq, -, hname⟩ := h
    rw [heq]
    exact fun hnil => hname.ne_nil (List.append_eq_nil_iff.1 hnil).2
  notMem_feed := by
    obtain ⟨mark, more, heq, hmark, hname⟩ := h
    rw [heq, List.mem_append]
    refine not_or.2 ⟨?_, hname.notMem_feed⟩
    rcases hmark with rfl | rfl <;> decide
  stopsName hident := by
    simp [Lexeme.isIdent, hkind] at hident
  firstRule rest _ hstops := by
    obtain ⟨mark, more, heq, hmark, c, tail, rfl, hc, htail⟩ := h
    rw [heq, hkind]
    replace hstops := run_append htail (hstops (by simp [Lexeme.isIdent, hkind]))
    rcases hmark with rfl | rfl
    · simpa [hstops] using firstRule_of_startsName hc (tail ++ rest)
    · simpa [hstops] using firstRule_of_at hc (tail ++ rest)
  space rest := by
    obtain ⟨mark, more, heq, hmark, c, tail, rfl, hc, htail⟩ := h
    rw [heq]
    refine firstRule_space ?_
    rcases hmark with rfl | rfl
    · simpa using isBlank_of_startsName hc
    · rfl

/-- A word that the rules give is lexed again. -/
theorem relexes_of_mem_tokensFrom {start : Nat} {cs : List Char} {t : Token}
    (h : t ∈ tokensFrom rules start cs) (hident : t.isIdent = true) :
    Relexes rules t.toLexeme := by
  obtain ⟨c, rest, n, -, htext, hfirst⟩ := exists_rule_of_mem_tokensFrom h
  have hkind : t.kind = .ident := of_decide_eq_true hident
  rw [hkind] at hfirst
  refine relexes_of_isIdentifier hkind ?_
  rw [htext, String.toList_ofList]
  obtain ⟨rule, hrule, hclass, hextent⟩ | ⟨herror, -⟩ := exists_rule_of_firstRule hfirst
  · simp only [rules, List.mem_cons, List.not_mem_nil, or_false] at hrule
    rcases hrule with rfl | rfl | rfl | rfl | rfl | rfl | rfl | rfl | rfl | rfl | rfl | rfl | rfl |
      rfl <;> cases hclass
    exact isIdentifier_take hextent
  · cases herror

/-- The characters of the punctuation of types. -/
def typeMarkChars : List Char := ['.', ',', '?', '*', ':', '<', '>', '[', ']', '(', ')']

theorem firstRule_of_typeMark {c : Char} (hc : c ∈ typeMarkChars) (cs : List Char) :
    firstRule rules (c :: cs) = (some .punct, 0) := by
  simp only [typeMarkChars, List.mem_cons, List.not_mem_nil, or_false] at hc
  rcases hc with rfl | rfl | rfl | rfl | rfl | rfl | rfl | rfl | rfl | rfl | rfl <;> rfl

/-- The punctuation of types is lexed again. -/
theorem relexes_of_mem_typeMarks {p : String} (hp : p ∈ Language.csharp.typeMarks) :
    Relexes rules ⟨.punct, p⟩ :=
  relexes_of_mem_marks (by decide) (by decide) (fun _ hc => firstRule_of_typeMark hc)
    (fun _ _ hblank => firstRule_space hblank) hp

end CSharp

/-! ## Visual Basic -/

namespace VisualBasic

theorem continuation_eq_zero {cs : List Char} (h : '\n' ∉ cs) : continuation cs = 0 := by
  unfold continuation
  split
  · rename_i cs
    have hdrop : '\n' ∉ cs.drop (run (fun c => c == ' ' || c == '\t') cs) := fun hmem =>
      h (List.mem_cons_of_mem _ (List.mem_of_mem_drop hmem))
    dsimp only
    split
    · rename_i heq
      exact absurd (heq ▸ List.mem_cons_self) hdrop
    · rename_i heq
      exact absurd (heq ▸ List.mem_cons_of_mem _ List.mem_cons_self) hdrop
    · rfl
  · rfl

theorem remark_eq_zero {c : Char} (hc : c.toLower ≠ 'r') (cs : List Char) :
    remark (c :: cs) = 0 := by
  unfold remark
  split
  · rename_i heq
    obtain ⟨rfl, -⟩ := List.cons.inj heq
    rw [beq_eq_false_iff_ne.2 hc]
    rfl
  · rfl

/-- What starts like a name is a name, or the mark at the end of a line, or a remark. -/
theorem firstRule_of_continuation_eq_zero {c : Char} (hc : startsName c = true) {cs : List Char}
    (hcontinuation : continuation (c :: cs) = 0) (hremark : remark (c :: cs) = 0) :
    firstRule rules (c :: cs) = (some .ident, run continuesName cs) := by
  have hne (d : Char) (hd : startsName d = false) : c ≠ d := ne_of_startsName hc hd
  simp [rules, firstRule, run, isLineBlank, hcontinuation, comment, hremark, newline, date,
    directive, string, brokenString, radixNumber, number, decimalNumber, wholePart, bracketedName,
    name, Nat.add_comm 1, hne ' ' (by decide), hne '\t' (by decide), hne '\r' (by decide),
    hne '\x0c' (by decide), hne '\'' (by decide), hne '\n' (by decide), hne '#' (by decide),
    hne '"' (by decide), hne '&' (by decide), hne '[' (by decide), isDigit_of_startsName hc, hc]

theorem firstRule_of_startsName {c : Char} (hc : startsName c = true) {cs : List Char}
    (hfeed : '\n' ∉ cs) (hremark : remark (c :: cs) = 0) :
    firstRule rules (c :: cs) = (some .ident, run continuesName cs) := by
  refine firstRule_of_continuation_eq_zero hc (continuation_eq_zero fun hmem => ?_) hremark
  rcases List.mem_cons.1 hmem with h | h
  · exact ne_of_startsName hc (by decide) h.symm
  · exact hfeed h

theorem remark_cons (r e m c : Char) (cs : List Char) :
    remark (r :: e :: m :: c :: cs) =
      if r.toLower == 'r' && e.toLower == 'e' && m.toLower == 'm' && !Text.isWordChar c then
        3 + restOfLine (c :: cs)
      else 0 := rfl

/-- A name is no remark in front of another text if it is none where it was read, and not `Rem`
itself. -/
theorem remark_append_eq_zero {text rest more : List Char} (hname : IsName text)
    (hrest : remark (text ++ rest) = 0) (hrem : text.map Char.toLower ≠ "rem".toList)
    (hmore : StopsName more) : remark (text ++ more) = 0 := by
  have hletter {d : Char} {ds : List Char} (heq : more = d :: ds) {e : Char}
      (he : continuesName e = true) : d.toLower ≠ e := by
    rintro rfl
    have hfolds : Text.FoldsCase continuesName := by decide +kernel
    rw [hfolds.apply_toLower] at he
    rw [StopsName, heq, List.head?_cons, Option.any_some, he] at hmore
    cases hmore
  obtain ⟨c, tail, rfl, -, -⟩ := hname
  -- the text ends inside the word, with it or behind it
  rcases tail with _ | ⟨d, _ | ⟨e, _ | ⟨f, tail⟩⟩⟩
  · rcases more with _ | ⟨d, _ | ⟨e, more⟩⟩
    · rfl
    · rfl
    · have hd : d.toLower ≠ 'e' := hletter rfl (by decide)
      simp [remark, hd]
  · rcases more with _ | ⟨e, more⟩
    · rfl
    · have he : e.toLower ≠ 'm' := hletter rfl (by decide)
      simp [remark, he]
  · have hword : ¬(c.toLower = 'r' ∧ d.toLower = 'e' ∧ e.toLower = 'm') := fun ⟨hr, he, hm⟩ =>
      hrem (by simp [hr, he, hm])
    simp only [remark, List.cons_append, Bool.and_eq_true, beq_iff_eq]
    rw [if_neg fun h => hword ⟨h.1.1.1, h.1.1.2, h.1.2⟩]
  · rw [List.cons_append, List.cons_append, List.cons_append, List.cons_append,
      remark_cons] at hrest ⊢
    refine if_neg fun hword => ?_
    rw [if_pos hword] at hrest
    omega

theorem firstRule_space {cs : List Char} (hcs : cs.head?.any isLineBlank = false) :
    firstRule rules (' ' :: cs) = (none, 0) := by
  have hrun : run isLineBlank (' ' :: cs) = 1 :=
    @run_append _ [' '] _ (List.forall_mem_singleton.2 rfl) hcs
  exact firstRule_of_extent hrun _

/-- A name between square brackets. -/
theorem firstRule_of_bracket {text : List Char} (hname : IsName text) (more : List Char) :
    firstRule rules ('[' :: (text ++ ']' :: more)) = (some .ident, text.length + 1) := by
  have hremark := remark_eq_zero (c := '[') (by decide) (text ++ ']' :: more)
  have hstops : StopsName (']' :: more) := show continuesName ']' = false by decide
  have hlength : name (text ++ ']' :: more) = text.length := hname.name_append hstops
  have hbracket : bracketedName ('[' :: (text ++ ']' :: more)) = text.length + 1 + 1 := by
    obtain ⟨n, hn⟩ := Nat.exists_eq_succ_of_ne_zero (mt List.length_eq_zero_iff.1 hname.ne_nil)
    rw [bracketedName, hlength, hn]
    change (if (List.drop n.succ (text ++ ']' :: more)).head? == some ']' then 2 + n.succ
      else 0) = _
    rw [← hn, List.drop_left, if_pos (by rfl)]
    omega
  have hdigit : Char.isDigit '[' = false := by decide
  simp [rules, firstRule, run, isLineBlank, continuation, comment, hremark, newline, date,
    directive, string, brokenString, radixNumber, number, decimalNumber, wholePart, hdigit,
    hbracket]

/-- The characters of the punctuation of types. -/
def typeMarkChars : List Char := ['.', ',', '?', '(', ')']

theorem firstRule_of_typeMark {c : Char} (hc : c ∈ typeMarkChars) (cs : List Char) :
    firstRule rules (c :: cs) = (some .punct, 0) := by
  simp only [typeMarkChars, List.mem_cons, List.not_mem_nil, or_false] at hc
  have hremark : remark (c :: cs) = 0 := by
    rcases hc with rfl | rfl | rfl | rfl | rfl <;> exact remark_eq_zero (by decide) cs
  have hblank : run isLineBlank (c :: cs) = 0 := by
    rcases hc with rfl | rfl | rfl | rfl | rfl <;> rfl
  have hcontinuation : continuation (c :: cs) = 0 := by
    rcases hc with rfl | rfl | rfl | rfl | rfl <;> rfl
  have hcomment : comment (c :: cs) = 0 := by
    rcases hc with rfl | rfl | rfl | rfl | rfl <;> rfl
  rw [rules, firstRule_of_extent_eq_zero hblank, firstRule_of_extent_eq_zero hcontinuation,
    firstRule_of_extent_eq_zero hcomment, firstRule_of_extent_eq_zero hremark]
  rcases hc with rfl | rfl | rfl | rfl | rfl <;> rfl

/-- The punctuation of types is lexed again. -/
theorem relexes_of_mem_typeMarks {p : String} (hp : p ∈ Language.visualBasic.typeMarks) :
    Relexes rules ⟨.punct, p⟩ :=
  relexes_of_mem_marks (by decide) (by decide) (fun _ hc => firstRule_of_typeMark hc)
    (fun _ _ hblank => firstRule_space hblank) hp

/-- The characters are a name between square brackets. -/
def IsBracketed (cs : List Char) : Prop :=
  ∃ inside, cs = '[' :: (inside ++ [']']) ∧ IsName inside

theorem isBracketed_take {cs : List Char} {n : Nat} (h : bracketedName cs = n + 1) :
    IsBracketed (cs.take (n + 1)) := by
  unfold bracketedName at h
  split at h
  · rename_i cs
    split at h
    · cases h
    · rename_i m hne
      obtain ⟨m, hm⟩ := Nat.exists_eq_succ_of_ne_zero hne
      rw [hm] at h
      split at h
      · rename_i hclose
        obtain rfl : n = m.succ + 1 := by omega
        rw [List.head?_drop, beq_iff_eq] at hclose
        refine ⟨cs.take m.succ, ?_, isName_take hm⟩
        rw [List.take_succ_cons, List.take_add_one, hclose]
        rfl
      · cases h
  · cases h

theorem relexes_of_isBracketed {l : Lexeme} (hkind : l.kind = .ident)
    (h : IsBracketed l.text.toList) : Relexes rules l := by
  obtain ⟨inside, heq, hname⟩ := h
  refine ⟨?_, ?_, fun hident => ?_, fun more _ _ => ?_, fun more => ?_⟩
  · rw [heq]
    exact List.cons_ne_nil _ _
  · rw [heq]
    simpa using hname.notMem_feed
  · simp [Lexeme.isIdent, hkind] at hident
  · rw [heq, hkind]
    simpa using firstRule_of_bracket hname more
  · rw [heq]
    exact firstRule_space (by rfl)

theorem relexes_of_isName {l : Lexeme} (hkind : l.kind = .ident) (hname : IsName l.text.toList)
    (hrem : Text.lowerAscii l.text ≠ "rem") {rest : List Char}
    (hrest : remark (l.text.toList ++ rest) = 0) : Relexes rules l := by
  have hword : l.text.toList.map Char.toLower ≠ "rem".toList := fun heq =>
    hrem (by rw [Text.lowerAscii, heq, String.ofList_toList])
  refine ⟨hname.ne_nil, hname.notMem_feed, fun hident => ?_, fun more hfeed hstops => ?_,
    fun more => ?_⟩
  · simp [Lexeme.isIdent, hkind] at hident
  · replace hstops : StopsName more := hstops (by simp [Lexeme.isIdent, hkind])
    have hremark := remark_append_eq_zero hname hrest hword hstops
    have hline := hname.notMem_feed
    obtain ⟨c, tail, heq, hc, htail⟩ := hname
    rw [heq] at hremark hline ⊢
    rw [List.cons_append] at hremark ⊢
    have hfeed : '\n' ∉ tail ++ more := by
      rw [List.mem_append]
      exact not_or.2 ⟨fun hmem => hline (List.mem_cons_of_mem c hmem), hfeed⟩
    rw [firstRule_of_startsName hc hfeed hremark, run_append htail hstops, hkind,
      List.length_cons, Nat.add_sub_cancel]
  · obtain ⟨c, tail, heq, hc, -⟩ := hname
    rw [heq]
    refine firstRule_space (?_ : isLineBlank c = false)
    have hne (d : Char) (hd : startsName d = false) : c ≠ d := ne_of_startsName hc hd
    simp [isLineBlank, hne ' ' (by decide), hne '\t' (by decide), hne '\r' (by decide),
      hne '\x0c' (by decide)]

/-- A word that the rules give is lexed again, if it is not `Rem`. -/
theorem relexes_of_mem_tokensFrom {start : Nat} {cs : List Char} {t : Token}
    (h : t ∈ tokensFrom rules start cs) (hident : t.isIdent = true)
    (hrem : Text.lowerAscii t.text ≠ "rem") : Relexes rules t.toLexeme := by
  obtain ⟨c, rest, n, -, htext, hfirst⟩ := exists_rule_of_mem_tokensFrom h
  have hkind : t.kind = .ident := of_decide_eq_true hident
  rw [hkind] at hfirst
  have hlist : t.text.toList = (c :: rest).take (n + 1) := by
    rw [htext, String.toList_ofList]
    rfl
  obtain ⟨rule, hrule, hclass, hextent⟩ | ⟨herror, -⟩ := exists_rule_of_firstRule hfirst
  · simp only [rules, List.mem_cons, List.not_mem_nil, or_false] at hrule
    rcases hrule with rfl | rfl | rfl | rfl | rfl | rfl | rfl | rfl | rfl | rfl | rfl | rfl | rfl |
      rfl | rfl | rfl <;> cases hclass
    · exact relexes_of_isBracketed hkind (hlist ▸ isBracketed_take hextent)
    · -- the rule for remarks comes before that for names and did not apply
      have hremark : remark (c :: rest) = 0 := by
        have hrules : rules = rules.take 4 ++ rules.drop 4 := (List.take_append_drop 4 _).symm
        rw [hrules] at hfirst
        exact extent_eq_zero_of_firstRule hfirst (by simp [rules]) ⟨none, remark⟩ (by simp [rules])
      rw [← List.take_append_drop (n + 1) (c :: rest), ← hlist] at hremark
      exact relexes_of_isName hkind (hlist ▸ isName_take hextent) hrem hremark
  · cases herror

end VisualBasic

end Lexis

/-! ## Lexemes of types -/

theorem Language.relexes_of_mem_typeMarks {language : Language} {p : String}
    (hp : p ∈ language.typeMarks) : Lexis.Relexes language.rules ⟨.punct, p⟩ := by
  cases language with
  | csharp => exact Lexis.CSharp.relexes_of_mem_typeMarks hp
  | visualBasic => exact Lexis.VisualBasic.relexes_of_mem_typeMarks hp

/-- Whether the lexeme is a word or a mark that types are spelled with. The word `Rem` would start a
comment in Visual Basic. -/
def Language.isPlain (language : Language) (l : Lexeme) : Bool :=
  l.isIdent && !(language = .visualBasic && Text.lowerAscii l.text == "rem") ||
    language.typeMarks.any l.isPunct

/-- A plain lexeme of a text is lexed again. -/
theorem Language.relexes_of_mem_tokenize {language : Language} {source : String} {t : Token}
    (h : t ∈ Lexis.tokenize language.rules source) (hplain : language.isPlain t.toLexeme = true) :
    Lexis.Relexes language.rules t.toLexeme := by
  rw [isPlain, Bool.or_eq_true, Bool.and_eq_true, List.any_eq_true] at hplain
  rcases hplain with ⟨hident, hrem⟩ | ⟨p, hp, hpunct⟩
  · cases language with
    | csharp => exact Lexis.CSharp.relexes_of_mem_tokensFrom h hident
    | visualBasic =>
      exact Lexis.VisualBasic.relexes_of_mem_tokensFrom h hident (by simpa using hrem)
  · have hlexeme : t.toLexeme = ⟨.punct, p⟩ := by
      simp only [Lexeme.isPunct, Bool.and_eq_true, decide_eq_true_eq] at hpunct
      rw [← hpunct.1, ← hpunct.2]
    rw [hlexeme]
    exact relexes_of_mem_typeMarks hp

end ZeroAlloc
