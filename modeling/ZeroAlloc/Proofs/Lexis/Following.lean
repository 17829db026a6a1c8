import ZeroAlloc.Proofs.Config.Validation
import ZeroAlloc.Proofs.Lexis.Behind
import ZeroAlloc.Proofs.Lexis.Tiling
import ZeroAlloc.Proofs.Site.Written
set_option autoImplicit false

/-! # What follows a word

A word is read as far as it goes, and what does not belong to it starts a lexeme of its own. So
between the word `new` and the type that it creates stands a character that no name of a factory can
hold (`Language.exists_behind_new`). -/

namespace ZeroAlloc

open Text (byteLength byteLength_append)

namespace Lexis

/-! ## The place of a token -/

/-- The token with an index is read at its place, and the later ones are those of the text behind
it. -/
theorem exists_rest_of_getElem? {rules : List Rule} {start i : Nat} {cs : List Char} {t : Token}
    (h : (tokensFrom rules start cs)[i]? = some t) :
    ∃ before c rest n, cs = before ++ c :: rest ∧ t.start = start + byteLength before ∧
      t.text.toList = c :: rest.take n ∧ firstRule rules (c :: rest) = (some t.kind, n) ∧
      (tokensFrom rules start cs).drop (i + 1) = tokensFrom rules t.stop (rest.drop n) := by
  revert i
  fun_induction tokensFrom rules start cs with
  | case1 =>
    intro i h
    cases h
  | case2 =>
    rename_i start c cs more covered _ kind hrule ih
    intro i h
    cases i with
    | zero =>
      cases h
      refine ⟨[], c, cs, more, rfl, rfl, String.toList_ofList, hrule, ?_⟩
      rw [Token.stop_eq, String.toList_ofList]
      rfl
    | succ i =>
      obtain ⟨before, d, rest, n, hcs, hstart, hcovered⟩ := ih h
      refine ⟨covered ++ before, d, rest, n, ?_, ?_, hcovered⟩
      · rw [List.append_assoc, ← hcs]
        simp [covered]
      · rw [hstart, byteLength_append, Nat.add_assoc]
  | case3 =>
    rename_i start c cs more covered _ hrule ih
    intro i h
    obtain ⟨before, d, rest, n, hcs, hstart, hcovered⟩ := ih h
    refine ⟨covered ++ before, d, rest, n, ?_, ?_, hcovered⟩
    · rw [List.append_assoc, ← hcs]
      simp [covered]
    · rw [hstart, byteLength_append, Nat.add_assoc]

theorem drop_run (p : Char → Bool) (cs : List Char) : cs.drop (run p cs) = cs.dropWhile p := by
  have hsplit : (cs.takeWhile p ++ cs.dropWhile p).drop (cs.takeWhile p).length =
      cs.dropWhile p := List.drop_left
  rwa [List.takeWhile_append_dropWhile] at hsplit

/-- A name ends where it does not go on. -/
theorem stopsName_drop_run (cs : List Char) : StopsName (cs.drop (run continuesName cs)) := by
  rw [StopsName, drop_run]
  have hhead := List.head?_dropWhile_not continuesName cs
  cases h : (cs.dropWhile continuesName).head? with
  | none => rfl
  | some c =>
    rw [h] at hhead
    exact hhead

theorem stopsName_of_name {c : Char} {rest : List Char} {n : Nat} (h : name (c :: rest) = n + 1) :
    StopsName (rest.drop n) := by
  rw [name] at h
  split at h
  · obtain rfl : run continuesName rest = n := by omega
    exact stopsName_drop_run rest
  · cases h

/-- A word that does not start with a mark is a name, and is read as far as the name goes. -/
theorem stopsName_of_firstRule {language : Language} {c : Char} {rest : List Char} {n : Nat}
    (h : firstRule language.rules (c :: rest) = (some .ident, n)) (hat : c ≠ '@')
    (hbracket : c ≠ '[') : StopsName (rest.drop n) := by
  obtain ⟨rule, hrule, hkind, hextent⟩ | ⟨herror, -⟩ := exists_rule_of_firstRule h
  · cases language with
    | csharp =>
      simp only [Language.rules, CSharp.rules, List.mem_cons, List.not_mem_nil, or_false] at hrule
      rcases hrule with rfl | rfl | rfl | rfl | rfl | rfl | rfl | rfl | rfl | rfl | rfl | rfl |
        rfl | rfl <;> cases hkind
      have hextent : CSharp.identifier (c :: rest) = n + 1 := hextent
      refine stopsName_of_name (?_ : name (c :: rest) = n + 1)
      unfold CSharp.identifier at hextent
      split at hextent
      next heq => exact absurd (List.cons.inj heq).1 hat
      next => exact hextent
    | visualBasic =>
      simp only [Language.rules, VisualBasic.rules, List.mem_cons, List.not_mem_nil,
        or_false] at hrule
      rcases hrule with rfl | rfl | rfl | rfl | rfl | rfl | rfl | rfl | rfl | rfl | rfl | rfl |
        rfl | rfl | rfl | rfl <;> cases hkind
      · have hextent : VisualBasic.bracketedName (c :: rest) = n + 1 := hextent
        unfold VisualBasic.bracketedName at hextent
        split at hextent
        next heq => exact absurd (List.cons.inj heq).1 hbracket
        next => cases hextent
      · exact stopsName_of_name hextent
  · cases herror

/-! ## Characters of names that no word goes on with -/

/-- A character of a dotted identifier that no word of a program goes on with: a point, or a sign
that counts as alphabetic and is no letter. -/
theorem eq_point_or_of_isNameChar {c : Char} (hname : isNameChar c = true)
    (hstops : continuesName c = false) :
    c = '.' ∨ Text.isAscii c = false ∧ Text.alphabeticSignRanges.contains c = true := by
  simp only [continuesName, Bool.or_eq_false_iff] at hstops
  simp only [isNameChar, continuesIdentifier, Text.isAlphanumeric, Text.isAlphabetic, hstops,
    Bool.or_false, Bool.false_or, Bool.or_eq_true, Bool.and_eq_true, Bool.not_eq_true',
    beq_iff_eq] at hname
  exact hname.symm

/-- No blank character is an alphabetic sign. -/
theorem isBlank_of_alphabeticSign {c : Char} (hascii : Text.isAscii c = false)
    (hc : Text.alphabeticSignRanges.contains c = true) : Text.isBlank c = false :=
  isBlank_of_ranges (by decide +kernel) hascii hc

/-- A sign that counts as alphabetic and starts no name is malformed. -/
theorem firstRule_of_alphabeticSign (language : Language) {c : Char}
    (hascii : Text.isAscii c = false) (hsign : Text.alphabeticSignRanges.contains c = true)
    (hstarts : startsName c = false) (cs : List Char) :
    firstRule language.rules (c :: cs) = (some .error, 0) := by
  have hblank := isBlank_of_alphabeticSign hascii hsign
  have hother (d : Char) (hd : Text.isAscii d = true) : c ≠ d := by
    rintro rfl
    rw [hascii] at hd
    cases hd
  have hmarks {marks : List Char} (hmarks : marks.all Text.isAscii = true) :
      marks.contains c = false := by
    rw [Bool.eq_false_iff]
    intro hmem
    exact hother c (List.all_eq_true.1 hmarks c (List.contains_iff_mem.1 hmem)) rfl
  have hcode : 128 ≤ c.toNat := by
    simpa [Text.isAscii] using hascii
  have hdigit : c.isDigit = false := by
    simp only [Char.isDigit, Bool.and_eq_false_iff, decide_eq_false_iff_not,
      UInt32.le_iff_toNat_le]
    exact .inr fun hle => absurd (Nat.le_trans hcode hle) (by decide)
  cases language with
  | csharp =>
    refine CSharp.firstRule_of_uncovered hblank hdigit hstarts (hmarks (by decide))
      (fun d hd => hother d (List.all_eq_true.1 ?_ d hd)) cs
    decide
  | visualBasic =>
    have hline : VisualBasic.isLineBlank c = false := by
      simp [VisualBasic.isLineBlank, hother ' ' (by decide), hother '\t' (by decide),
        hother '\r' (by decide), hother '\x0c' (by decide)]
    have halpha : c.isAlpha = false := by
      rw [Bool.eq_false_iff, ne_eq, Text.isAlpha_iff]
      omega
    have hremark : c.toLower ≠ 'r' := by
      rw [Text.toLower_eq_self halpha]
      exact hother 'r' (by decide)
    refine VisualBasic.firstRule_of_uncovered hline hdigit hstarts (hmarks (by decide)) hremark
      (fun d hd => hother d (List.all_eq_true.1 ?_ d hd)) cs
    decide

/-- Such a character is a lexeme of its own. -/
theorem firstRule_of_isNameChar (language : Language) {c : Char} (hname : isNameChar c = true)
    (hstops : continuesName c = false) (cs : List Char) :
    firstRule language.rules (c :: cs) = (some .punct, 0) ∧ c = '.' ∨
      firstRule language.rules (c :: cs) = (some .error, 0) := by
  rcases eq_point_or_of_isNameChar hname hstops with rfl | ⟨hascii, hsign⟩
  · refine .inl ⟨?_, rfl⟩
    cases language with
    | csharp => exact CSharp.firstRule_of_typeMark (by decide) cs
    | visualBasic => exact VisualBasic.firstRule_of_typeMark (by decide) cs
  · have hstarts : startsName c = false := by
      simp only [continuesName, Bool.or_eq_false_iff] at hstops
      simp [startsName, hstops]
    exact .inr (firstRule_of_alphabeticSign language hascii hsign hstarts cs)

/-! ## Behind a word -/

/-- What a type starts with is no such character. -/
theorem isNameChar_eq_false_of_startsAllocation {language : Language} {start : Nat} {c : Char}
    {cs : List Char} {next : Token} (hstops : continuesName c = false)
    (hnext : (tokensFrom language.rules start (c :: cs))[0]? = some next)
    (hstarts : next.StartsAllocation) : isNameChar c = false := by
  rw [Bool.eq_false_iff]
  intro hname
  rcases firstRule_of_isNameChar language hname hstops cs with ⟨hpoint, rfl⟩ | herror
  · rw [tokensFrom, hpoint] at hnext
    cases hnext
    have hplain : ¬Lexeme.StartsAllocation ⟨.punct, "."⟩ := by
      rw [Lexeme.StartsAllocation]
      decide
    exact hplain hstarts
  · rw [tokensFrom, herror] at hnext
    cases hnext
    rcases hstarts with hident | hopens | hglobal
    · cases hident
    · simp [Lexeme.opensGroup, Lexeme.isPunct] at hopens
    · have hlength := congrArg (fun text : String => text.toList.length) hglobal
      simp at hlength

end Lexis

/-- The text starts with no dotted name: there is no point before its first character that names
lack. -/
def StartsNoDottedName (cs : List Char) : Prop :=
  '.' ∉ cs.takeWhile isNameChar

/-- Between the word `new` and the type that is created stands a character that no name holds. -/
theorem Language.exists_behind_new {language : Language} {source : String} {i : Nat}
    {t next : Token} (ht : (Lexis.tokenize language.rules source)[i]? = some t)
    (hnext : (Lexis.tokenize language.rules source)[i + 1]? = some next)
    (hident : t.isIdent = true) (hword : Text.lowerAscii t.text = "new")
    (hstarts : next.StartsAllocation) :
    ∃ before behind, source.toList = before ++ (t.text.toList ++ behind) ∧
      t.start = byteLength before ∧ StartsNoDottedName (t.text.toList ++ behind) := by
  obtain ⟨before, c, rest, n, hsource, hstart, htext, hfirst, hmore⟩ :=
    Lexis.exists_rest_of_getElem? ht
  have hchars : t.text.toList.map Char.toLower = ['n', 'e', 'w'] := by
    rw [← Text.toList_lowerAscii, hword]
    rfl
  have hkind : t.kind = .ident := of_decide_eq_true hident
  have hc : c.toLower = 'n' := by
    rw [htext] at hchars
    exact (List.cons.inj hchars).1
  have hstops : Lexis.StopsName (rest.drop n) := by
    refine Lexis.stopsName_of_firstRule (hkind ▸ hfirst) ?_ ?_
    · rintro rfl
      exact absurd hc (by decide)
    · rintro rfl
      exact absurd hc (by decide)
  have hsplit : c :: rest = t.text.toList ++ rest.drop n := by
    rw [htext, List.cons_append, List.take_append_drop]
  have hbehind : (rest.drop n).takeWhile isNameChar = [] := by
    cases hrest : rest.drop n with
    | nil => rfl
    | cons d ds =>
      rw [hrest] at hstops hmore
      have hzero : (Lexis.tokensFrom language.rules t.stop (d :: ds))[0]? = some next := by
        rw [← hmore, List.getElem?_drop]
        exact hnext
      have hd := Lexis.isNameChar_eq_false_of_startsAllocation hstops hzero hstarts
      rw [List.takeWhile_cons_of_neg (by simp [hd])]
  refine ⟨before, rest.drop n, by rw [hsource, hsplit], by rw [hstart, Nat.zero_add], ?_⟩
  intro hpoint
  rw [List.takeWhile_append, hbehind, List.append_nil] at hpoint
  have hmem : '.' ∈ t.text.toList := by
    split at hpoint
    · exact hpoint
    · exact (List.takeWhile_prefix _).mem hpoint
  have hlower := List.mem_map_of_mem (f := Char.toLower) hmem
  rw [hchars] at hlower
  revert hlower
  decide

end ZeroAlloc
