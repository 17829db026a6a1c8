import ZeroAlloc.Language
import ZeroAlloc.Proofs.Lexis.Returned
import ZeroAlloc.Proofs.Lexis.Spelling
set_option autoImplicit false

/-! # Tokens behind a first line or mark

The tokens of a text do not depend on where it starts (`tokensFrom_add`). A line in front of it that
is a comment leaves no token in C#, and its line break in Visual Basic
(`exists_tokenize_behind_comment`); a byte-order mark, which no rule of either language covers, is
one malformed token (`tokenize_behind_mark`). -/

namespace ZeroAlloc

open Text (byteLength byteLength_append)

/-- The token, moved up by a number of bytes. -/
def Token.shift (n : Nat) (t : Token) : Token :=
  { t with start := t.start + n }

@[simp] theorem Token.start_shift (n : Nat) (t : Token) : (t.shift n).start = t.start + n := rfl

@[simp] theorem Token.stop_shift (n : Nat) (t : Token) : (t.shift n).stop = t.stop + n :=
  Nat.add_right_comm _ _ _

theorem lexemes_shift (n : Nat) (ts : List Token) :
    lexemes (ts.map (Token.shift n)) = lexemes ts := by
  rw [lexemes, List.map_map]
  rfl

namespace Lexis

/-- The tokens of a text that starts further on are moved up with it. -/
theorem tokensFrom_add (rules : List Rule) (start n : Nat) (cs : List Char) :
    tokensFrom rules (start + n) cs = (tokensFrom rules start cs).map (Token.shift n) := by
  fun_induction tokensFrom rules start cs with
  | case1 => rw [tokensFrom, List.map_nil]
  | case2 start c cs more covered _ kind hrule ih =>
    rw [tokensFrom, hrule]
    dsimp only
    rw [Nat.add_right_comm, ih]
    rfl
  | case3 start c cs more covered _ hrule ih =>
    rw [tokensFrom, hrule]
    dsimp only
    rw [Nat.add_right_comm, ih]

/-- What a rule drops at the start of a text leaves no token. -/
theorem tokensFrom_of_dropped {rules : List Rule} {c : Char} {more rest : List Char}
    (h : firstRule rules (c :: (more ++ rest)) = (none, more.length)) (start : Nat) :
    tokensFrom rules start (c :: (more ++ rest)) =
      tokensFrom rules (start + byteLength (c :: more)) rest := by
  rw [tokensFrom, h]
  simp

/-- What a rule covers at the start of a text gives one token. -/
theorem tokensFrom_of_covered {rules : List Rule} {c : Char} {more rest : List Char}
    {kind : LexemeKind}
    (h : firstRule rules (c :: (more ++ rest)) = (some kind, more.length)) (start : Nat) :
    tokensFrom rules start (c :: (more ++ rest)) =
      ⟨⟨kind, String.ofList (c :: more)⟩, start⟩ ::
        tokensFrom rules (start + byteLength (c :: more)) rest := by
  rw [tokensFrom, h]
  simp

/-- No name starts with a byte-order mark. -/
theorem startsName_byteOrderMark : startsName '\ufeff' = false := by
  have hascii : Text.isAscii '\ufeff' = false := by decide
  have hletter : Text.letterRanges.contains '\ufeff' = false := by
    rw [Text.Ranges.contains, ← Array.any_toList]
    decide +kernel
  rw [startsName, Text.isLetter, hascii, hletter]
  rfl

/-! ## Comments -/

theorem restOfLine_append {line : List Char} (h : '\n' ∉ line) (cs : List Char) :
    restOfLine (line ++ '\n' :: cs) = line.length := by
  have hline : ∀ c ∈ line, decide (c ≠ '\n') = true := by
    intro c hc
    simpa using fun heq : c = '\n' => h (heq ▸ hc)
  rw [restOfLine, run, List.takeWhile_append_of_pos hline]
  simp

namespace CSharp

/-- A line feed joins the blank space behind it. -/
theorem tokensFrom_feed (start : Nat) (cs : List Char) :
    tokensFrom rules start ('\n' :: cs) = tokensFrom rules (start + 1) cs := by
  have hblank : Text.isBlank '\n' = true := by decide
  have hfeed : byteLength ['\n'] = 1 := by decide
  rw [tokensFrom, firstRule_of_isBlank hblank]
  cases cs with
  | nil => simp [run, tokensFrom]
  | cons c cs =>
    dsimp only
    cases hc : Text.isBlank c with
    | false =>
      have hrun : run Text.isBlank (c :: cs) = 0 := by simp [run, hc]
      rw [hrun]
      simp [hfeed]
    | true =>
      have hrun : run Text.isBlank (c :: cs) = run Text.isBlank cs + 1 := by simp [run, hc]
      have hlength (ds : List Char) : byteLength ('\n' :: ds) = 1 + byteLength ds :=
        byteLength_append ['\n'] ds
      rw [tokensFrom, firstRule_of_isBlank hc, hrun]
      dsimp only
      rw [List.take_succ_cons, List.drop_succ_cons, hlength, Nat.add_assoc]

/-- A line that is a comment leaves no token. -/
theorem tokensFrom_comment {line : List Char} (h : '\n' ∉ line) (start : Nat) (cs : List Char) :
    tokensFrom rules start ('/' :: '/' :: line ++ '\n' :: cs) =
      tokensFrom rules (start + byteLength ('/' :: '/' :: line ++ ['\n'])) cs := by
  have hfirst : firstRule rules ('/' :: ('/' :: line ++ '\n' :: cs)) =
      (none, ('/' :: line).length) := by
    have hextent : lineComment ('/' :: '/' :: (line ++ '\n' :: cs)) = line.length + 1 + 1 := by
      rw [lineComment, restOfLine_append h]
      omega
    exact (firstRule_of_extent_eq_zero rfl _).trans (firstRule_of_extent hextent _)
  have hlength : byteLength ('/' :: '/' :: line ++ ['\n']) =
      byteLength ('/' :: '/' :: line) + 1 := byteLength_append _ _
  have hdropped := tokensFrom_of_dropped hfirst start
  rw [tokensFrom_feed, Nat.add_assoc, ← hlength] at hdropped
  exact hdropped

/-- No rule covers a character that starts nothing. -/
theorem firstRule_of_uncovered {c : Char} (hblank : Text.isBlank c = false)
    (hdigit : c.isDigit = false) (hname : startsName c = false) (hmark : isPunctuation c = false)
    (hother : ∀ d ∈ ['/', '#', '@', '$', '"', '\'', '0'], c ≠ d) (cs : List Char) :
    firstRule rules (c :: cs) = (some .error, 0) := by
  simp [rules, firstRule, run, lineComment, blockComment, openComment, directive, verbatimString,
    verbatimOpening, string, stringOpening, charLiteral, brokenLiteral, radixNumber, number,
    decimalNumber, wholePart, identifier, name, punctuation, hblank, hdigit, hname, hmark,
    hother '/' (by simp), hother '#' (by simp), hother '@' (by simp), hother '$' (by simp),
    hother '"' (by simp), hother '\'' (by simp), hother '0' (by simp)]

theorem firstRule_byteOrderMark (cs : List Char) :
    firstRule rules ('\ufeff' :: cs) = (some .error, 0) :=
  firstRule_of_uncovered (by decide) (by decide) startsName_byteOrderMark (by decide) (by simp) cs

end CSharp

namespace VisualBasic

/-- A line that is a comment leaves its line break. -/
theorem tokensFrom_comment {line : List Char} (h : '\n' ∉ line) (start : Nat) (cs : List Char) :
    tokensFrom rules start ('\'' :: line ++ '\n' :: cs) =
      ⟨⟨.newline, "\n"⟩, start + byteLength ('\'' :: line)⟩ ::
        tokensFrom rules (start + byteLength ('\'' :: line ++ ['\n'])) cs := by
  have hfirst : firstRule rules ('\'' :: (line ++ '\n' :: cs)) = (none, line.length) := by
    have hextent : comment ('\'' :: (line ++ '\n' :: cs)) = line.length + 1 := by
      rw [comment, restOfLine_append h, Nat.add_comm]
    exact (firstRule_of_extent_eq_zero rfl _).trans
      ((firstRule_of_extent_eq_zero rfl _).trans (firstRule_of_extent hextent _))
  have hlength : byteLength ('\'' :: line ++ ['\n']) =
      byteLength ('\'' :: line) + byteLength ['\n'] := byteLength_append _ _
  have hfeed : firstRule rules ('\n' :: ([] ++ cs)) = (some .newline, ([] : List Char).length) :=
    firstRule_feed cs
  rw [hlength, ← Nat.add_assoc]
  exact (tokensFrom_of_dropped hfirst start).trans (tokensFrom_of_covered hfeed _)

/-- No rule covers a character that starts nothing. -/
theorem firstRule_of_uncovered {c : Char} (hblank : isLineBlank c = false)
    (hdigit : c.isDigit = false) (hname : startsName c = false) (hmark : isPunctuation c = false)
    (hremark : c.toLower ≠ 'r')
    (hother : ∀ d ∈ ['_', '\'', '\n', '#', '"', '&', '['], c ≠ d) (cs : List Char) :
    firstRule rules (c :: cs) = (some .error, 0) := by
  simp [rules, firstRule, run, hblank, continuation, comment, remark_eq_zero hremark, newline, date,
    directive, string, brokenString, radixNumber, number, decimalNumber, wholePart, bracketedName,
    name, punctuation, hdigit, hname, hmark, hother '_' (by simp), hother '\'' (by simp),
    hother '\n' (by simp), hother '#' (by simp), hother '"' (by simp), hother '&' (by simp),
    hother '[' (by simp)]

theorem firstRule_byteOrderMark (cs : List Char) :
    firstRule rules ('\ufeff' :: cs) = (some .error, 0) :=
  firstRule_of_uncovered (by decide) (by decide) startsName_byteOrderMark (by decide) (by decide)
    (by simp) cs

end VisualBasic

end Lexis

/-! ## Languages -/

/-- The mark of a comment that runs to the end of its line. -/
def Language.commentMark : Language → String
  | csharp => "//"
  | visualBasic => "'"

/-- What a comment line in front of a text leaves of itself: the line break where one matters. -/
def Language.afterCommentLine : Language → List Lexeme
  | csharp => []
  | visualBasic => [⟨.newline, "\n"⟩]

namespace Lexis

variable (language : Language) (source : String)

/-- Behind a comment line, a text has its own tokens, moved up by the bytes of the line. -/
theorem exists_tokenize_behind_comment {line : String} (h : '\n' ∉ line.toList) :
    ∃ lead, lexemes lead = language.afterCommentLine ∧
      tokenize language.rules (language.commentMark ++ line ++ "\n" ++ source) =
        lead ++ (tokenize language.rules source).map
          (Token.shift (byteLength (language.commentMark ++ line ++ "\n").toList)) := by
  have hline : (language.commentMark ++ line ++ "\n").toList =
      language.commentMark.toList ++ line.toList ++ ['\n'] := by
    simp
  have htext : (language.commentMark ++ line ++ "\n" ++ source).toList =
      language.commentMark.toList ++ line.toList ++ '\n' :: source.toList := by
    simp
  rw [tokenize, tokenize, hline, htext, ← tokensFrom_add]
  cases language with
  | csharp => exact ⟨[], rfl, CSharp.tokensFrom_comment h 0 source.toList⟩
  | visualBasic => exact ⟨[_], rfl, VisualBasic.tokensFrom_comment h 0 source.toList⟩

/-- Behind a byte-order mark, which is malformed, a text has its own tokens, moved up. -/
theorem tokenize_behind_mark :
    tokenize language.rules ("\ufeff" ++ source) =
      [⟨⟨.error, "\ufeff"⟩, 0⟩] ++ (tokenize language.rules source).map (Token.shift 3) := by
  have hfirst : firstRule language.rules ('\ufeff' :: ([] ++ source.toList)) =
      (some .error, ([] : List Char).length) := by
    cases language with
    | csharp => exact CSharp.firstRule_byteOrderMark source.toList
    | visualBasic => exact VisualBasic.firstRule_byteOrderMark source.toList
  have htext : ("\ufeff" ++ source).toList = '\ufeff' :: ([] ++ source.toList) := by
    simp
  rw [tokenize, tokenize, htext, tokensFrom_of_covered hfirst, ← tokensFrom_add]
  rfl

end Lexis

end ZeroAlloc
