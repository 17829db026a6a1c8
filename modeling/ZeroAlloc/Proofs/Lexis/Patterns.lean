import Mathlib.Data.List.Forall2
import Mathlib.Data.List.TakeWhile
import ZeroAlloc.Proofs.Lexis.Pattern
set_option autoImplicit false

/-! # The patterns of the lexical rules

Each rule of both languages covers what its regular expression matches first: `patterns` gives the
expressions, in the order of the rules, and `forall₂_rules_patterns` proves that they agree. -/

namespace ZeroAlloc.Lexis

open Pattern

/-! ## Common patterns -/

namespace Pattern

open Shape (IsTotal nothing ofExtent total)

/-- A character that stands for itself. -/
def char (c : Char) : Pattern := one (· == c)

/-- Any characters up to the end of the line. -/
def line : Pattern := many (one (· ≠ '\n'))

/-- What stands for one character in a literal with escapes. -/
def escapable (quote : Char) : Pattern :=
  orElse (one fun c => c ≠ quote && c ≠ '\\' && c ≠ '\n') (andThen (char '\\') (one (· ≠ '\n')))

/-- What stands for one character in a literal that doubles its quotes. -/
def doublable (allowed : Char → Bool) : Pattern :=
  orElse (one fun c => c ≠ '"' && allowed c) (andThen (char '"') (char '"'))

@[simp] theorem char_before (c : Char) (next : Shape) :
    (char c).before next = (Shape.one (· == c)).andThen next := rfl

theorem line_before_nothing : line.before nothing = total restOfLine := by
  rw [line, many_one_before_of_isTotal Shape.isTotal_nothing, Shape.andThen_nothing]
  rfl

theorem plus_one_before_of_isTotal {p : Char → Bool} {next : Shape} (h : next.IsTotal) :
    (plus (one p)).before next = (ofExtent (run p)).andThen next := by
  rw [plus, before, before, many_one_before_of_isTotal h, ofExtent_run, Shape.andThen_assoc]

theorem advances_escapable (quote : Char) : (escapable quote).Advances :=
  (advances_one _).orElse ((advances_one _).andThen (advances_one _))

theorem advances_doublable (allowed : Char → Bool) : (doublable allowed).Advances :=
  (advances_one _).orElse ((advances_one _).andThen (advances_one _))

theorem many_escapable_before {quote : Char} (hslash : quote ≠ '\\') :
    (many (escapable quote)).before (Shape.one (· == quote)) = escapedBody quote := by
  have hround := many_before (advances_escapable quote) (Shape.one (· == quote))
  generalize (many (escapable quote)).before (Shape.one (· == quote)) = body at hround ⊢
  have hnil : body [] = none := by rw [hround]; simp [escapable, char, Shape.orElse]
  have hcons (c : Char) (cs : List Char) : body (c :: cs) =
      ((if c ≠ quote && c ≠ '\\' && c ≠ '\n' then (body cs).map (1 + ·) else none).or
        (if c = '\\' then (((Shape.one (· ≠ '\n')).andThen body) cs).map (1 + ·) else none)).or
          (if c = quote then some 1 else none) := by
    conv => lhs; rw [hround]
    simp [escapable, char, Shape.orElse]
  clear hround
  funext cs
  fun_induction escapedBody quote cs with
  | case1 => exact hnil
  | case2 => simp [hcons, hslash]
  | case3 c hc => simp [hcons, hc, hnil]
  | case4 d cs => simp [hcons, hslash]
  | case5 d cs hc => simp [hcons, hc]
  | case6 cs hback => simp [hcons, hback]
  | case7 d cs hfeed _ _ ih =>
    simp [hcons, Ne.symm hslash, hfeed, ih, Function.comp_def, Nat.add_comm 1, Nat.add_assoc]
  | case8 c d cs hquote hfeed hback ih => simp [hcons c, hquote, hfeed, hback, ih, Nat.add_comm]

/-- The first of two quotes closes the literal if the second one does not go on with it. -/
theorem many_doublable_before {allowed : Char → Bool} {next : Shape} (htotal : next.IsTotal) :
    (many (doublable allowed)).before ((Shape.one (· == '"')).andThen next) =
      Shape.andThen (doubledBody allowed) next := by
  have hround := many_before (advances_doublable allowed) ((Shape.one (· == '"')).andThen next)
  generalize (many (doublable allowed)).before ((Shape.one (· == '"')).andThen next) = body
    at hround ⊢
  have hnil : body [] = none := by rw [hround]; simp [doublable, char, Shape.orElse]
  have hcons (c : Char) (cs : List Char) : body (c :: cs) =
      ((if c ≠ '"' && allowed c then (body cs).map (1 + ·) else none).or
        (if c = '"' then (((Shape.one (· == '"')).andThen body) cs).map (1 + ·) else none)).or
          (if c = '"' then (next cs).map (1 + ·) else none) := by
    conv => lhs; rw [hround]
    simp [doublable, char, Shape.orElse]
  clear hround
  funext cs
  rw [Shape.andThen]
  fun_induction doubledBody allowed cs with
  | case1 => exact hnil
  | case2 => simp [hcons]
  | case3 c hc => simp [hcons, hc, hnil]
  | case4 cs n hn ih =>
    obtain ⟨m, hm⟩ := Option.isSome_iff_exists.1 (htotal (cs.drop n))
    rw [hn, Option.bind_some, hm] at ih
    simp [hcons, ih, hm]
    omega
  | case5 cs hn ih =>
    rw [hn, Option.bind_none] at ih
    simp [hcons, ih]
  | case6 d cs hd => simp [hcons, hd]
  | case7 c d cs hc hallowed ih =>
    cases hbody : doubledBody allowed (d :: cs) with
    | none => simp [hcons c, hc, hallowed, ih, hbody]
    | some n =>
      simp [hcons c, hc, hallowed, ih, hbody, Nat.add_comm 1, Nat.add_right_comm,
        Function.comp_def]
  | case8 c d cs hc hallowed => simp [hcons, hc, hallowed]

theorem few_before_commentEnd :
    (few (one fun _ => true)).before ((Shape.one (· == '*')).andThen (Shape.one (· == '/'))) =
      commentBody := by
  have hround := few_before (advances_one fun _ => true)
    ((Shape.one (· == '*')).andThen (Shape.one (· == '/')))
  generalize (few (one fun _ => true)).before
    ((Shape.one (· == '*')).andThen (Shape.one (· == '/'))) = body at hround ⊢
  funext cs
  fun_induction commentBody cs with
  | case1 => rw [hround]; simp [Shape.orElse]
  | case2 c cs hopen ih =>
    -- the comment does not end here
    have hend : ((Shape.one (· == '*')).andThen (Shape.one (· == '/'))) (c :: cs) = none := by
      rw [Shape.one_andThen_cons]
      split
      · rename_i hstar
        obtain rfl : c = '*' := by simpa using hstar
        cases cs with
        | nil => rfl
        | cons d cs =>
          have hd : d ≠ '/' := fun hd => hopen cs rfl (hd ▸ rfl)
          simp [hd]
      · rfl
    rw [hround, Shape.orElse, hend, Option.none_or]
    simp [ih, Nat.add_comm]
  | case3 => rw [hround]; simp [Shape.orElse]

/-! ## Numbers and names -/

/-- The digits of a number before or behind the point. -/
def whole : Pattern := andThen (one Char.isDigit) (many (one isDigitOrSeparator))

/-- The exponent of a number. -/
def exponent : Pattern :=
  (one fun c => c == 'e' || c == 'E').andThen
    ((optional (one fun c => c == '+' || c == '-')).andThen (plus (one Char.isDigit)))

/-- A decimal number up to its type suffix. -/
def decimal : Pattern :=
  whole.andThen ((optional ((char '.').andThen whole)).andThen
    (optional exponent))

/-- A name. -/
def name : Pattern := andThen (one startsName) (many (one continuesName))

theorem whole_before {next : Shape} (h : next.IsTotal) :
    whole.before next = (ofExtent wholePart).andThen next := by
  rw [whole, andThen_before, one_before, many_one_before_of_isTotal h, ofExtent_wholePart,
    Shape.andThen_assoc]

theorem exponent_before {next : Shape} (h : next.IsTotal) :
    exponent.before next = (ofExtent exponentPart).andThen next := by
  -- a sign in front of no digit is not passed over, since it is no digit itself
  have hsign : (optional (one fun c => c == '+' || c == '-')).before
      ((ofExtent (run Char.isDigit)).andThen next) =
        (total sign).andThen ((ofExtent (run Char.isDigit)).andThen next) := by
    funext cs
    cases cs with
    | nil => rfl
    | cons c cs =>
      by_cases hc : c = '+' ∨ c = '-'
      · have hnone : ((ofExtent (run Char.isDigit)).andThen next) (c :: cs) = none := by
          rcases hc with rfl | rfl <;> rfl
        have hlength : sign (c :: cs) = 1 := by rcases hc with rfl | rfl <;> rfl
        rw [optional_before, Shape.orElse, one_before, Shape.one_andThen_cons,
          if_pos (by simpa using hc), hnone, Shape.total_andThen, hlength,
          List.drop_succ_cons, List.drop_zero, Option.or_none]
      · have hlength : sign (c :: cs) = 0 := by
          rw [not_or] at hc
          simp [sign, hc.1, hc.2]
        rw [optional_before, Shape.orElse, one_before, Shape.one_andThen_cons,
          if_neg (by simpa using hc), Option.none_or, Shape.total_andThen, hlength]
        simp
  rw [exponent, andThen_before, one_before, andThen_before, plus_one_before_of_isTotal h, hsign,
    ofExtent_exponentPart, Shape.andThen_assoc, Shape.andThen_assoc]

theorem decimal_before {next : Shape} (h : next.IsTotal) :
    decimal.before next = (ofExtent decimalNumber).andThen next := by
  have hexponent := optional_before_of_isTotal (exponent_before h) h
  have htotal := (Shape.isTotal_total exponentPart).andThen h
  have hfraction : (andThen (char '.') whole).before ((total exponentPart).andThen next) =
      (ofExtent fractionPart).andThen ((total exponentPart).andThen next) := by
    rw [andThen_before, whole_before htotal, char, one_before, ofExtent_fractionPart,
      Shape.andThen_assoc]
  rw [decimal, andThen_before, andThen_before, hexponent,
    optional_before_of_isTotal hfraction htotal,
    whole_before ((Shape.isTotal_total fractionPart).andThen htotal), ofExtent_decimalNumber,
    Shape.andThen_assoc, Shape.andThen_assoc]

theorem name_before {next : Shape}
    (h : ∀ c cs, continuesName c = true →
      next (c :: cs) = none ∨ (next (cs.drop (run continuesName cs))).isSome = true) :
    name.before next = (ofExtent Lexis.name).andThen next := by
  rw [name, andThen_before, one_before, many_one_before h, ofExtent_name, Shape.andThen_assoc]

theorem name_before_nothing : name.before nothing = ofExtent Lexis.name := by
  rw [name_before fun _ _ _ => .inr rfl, Shape.andThen_nothing]

end Pattern

/-- A rule covers what its expression matches, and gives its class. -/
structure Rule.Agrees (rule : Rule) (written : Option LexemeKind × Pattern) : Prop where
  kind : written.1 = rule.kind
  shape : written.2.shape = Shape.ofExtent rule.extent

/-! ## C# -/

namespace CSharp

open Shape (ofExtent nothing total)

/-- `//[^\n]*` -/
def lineCommentPattern : Pattern := (char '/').andThen ((char '/').andThen line)

/-- `/\*(?s:.*?)\*/` -/
def blockCommentPattern : Pattern :=
  (char '/').andThen ((char '*').andThen
    ((few (one fun _ => true)).andThen ((char '*').andThen (char '/'))))

/-- `/\*(?s:.*)` -/
def openCommentPattern : Pattern :=
  (char '/').andThen ((char '*').andThen (many (one fun _ => true)))

/-- `#[^\n]*` -/
def directivePattern : Pattern := (char '#').andThen line

/-- `(?:\$@|@\$|@)` -/
def verbatimMarks : Pattern :=
  ((char '$').andThen (char '@')).orElse (((char '@').andThen (char '$')).orElse (char '@'))

/-- `(?:\$@|@\$|@)"(?:[^"]|"")*"` -/
def verbatimStringPattern : Pattern :=
  verbatimMarks.andThen ((char '"').andThen ((many (doublable fun _ => true)).andThen (char '"')))

/-- `\$?"(?:[^"\\\n]|\\.)*"` -/
def stringPattern : Pattern :=
  (optional (char '$')).andThen ((char '"').andThen ((many (escapable '"')).andThen (char '"')))

/-- `'(?:[^'\\\n]|\\.)+'` -/
def charLiteralPattern : Pattern :=
  (char '\'').andThen ((plus (escapable '\'')).andThen (char '\''))

/-- `(?:\$|@)*["'][^\n]*` -/
def brokenLiteralPattern : Pattern :=
  (many (one fun c => c == '$' || c == '@')).andThen
    ((one fun c => c == '"' || c == '\'').andThen line)

/-- `0[xX][0-9a-fA-F_]+[uUlL]*`, and the same for other radices. -/
def radixNumberPattern (lower upper : Char) (digit : Char → Bool) : Pattern :=
  (char '0').andThen ((one fun x => x == lower || x == upper).andThen
    ((plus (one digit)).andThen (many (one isIntegerSuffix))))

/-- `[0-9][0-9_]*(?:\.[0-9][0-9_]*)?(?:[eE][+-]?[0-9]+)?[uUlLfFdDmM]*` -/
def numberPattern : Pattern := decimal.andThen (many (one isNumberSuffix))

/-- `@?[\p{L}_][\p{L}\p{N}_]*` -/
def identifierPattern : Pattern := (optional (char '@')).andThen Pattern.name

/-- The expressions of C#, each with the class of its lexemes, in the order in which they are
tried. -/
def patterns : List (Option LexemeKind × Pattern) := [
  (none, plus (one Text.isBlank)),
  (none, lineCommentPattern),
  (none, blockCommentPattern),
  (some .error, openCommentPattern),
  (none, directivePattern),
  (some .str, verbatimStringPattern),
  (some .str, stringPattern),
  (some .str, charLiteralPattern),
  (some .error, brokenLiteralPattern),
  (some .number, radixNumberPattern 'x' 'X' isHexOrSeparator),
  (some .number, radixNumberPattern 'b' 'B' isBinaryOrSeparator),
  (some .number, numberPattern),
  (some .ident, identifierPattern),
  (some .punct, one isPunctuation)]

theorem shape_lineCommentPattern : lineCommentPattern.shape = ofExtent lineComment := by
  simp only [shape, lineCommentPattern, char, andThen_before, one_before, line_before_nothing,
    ofExtent_lineComment]

theorem shape_blockCommentPattern : blockCommentPattern.shape = ofExtent blockComment := by
  simp only [shape, blockCommentPattern, char, andThen_before, one_before, Shape.andThen_nothing,
    few_before_commentEnd, ofExtent_blockComment]

theorem shape_openCommentPattern : openCommentPattern.shape = ofExtent openComment := by
  have hall : run (fun _ => true) = List.length := by
    funext cs
    rw [run, List.takeWhile_eq_self_iff.2 fun _ _ => rfl]
  simp only [shape, openCommentPattern, char, andThen_before, one_before,
    many_one_before_of_isTotal Shape.isTotal_nothing, Shape.andThen_nothing, hall,
    ofExtent_openComment]

theorem shape_directivePattern : directivePattern.shape = ofExtent directive := by
  simp only [shape, directivePattern, char, andThen_before, one_before, line_before_nothing,
    ofExtent_directive]

theorem shape_verbatimStringPattern : verbatimStringPattern.shape = ofExtent verbatimString := by
  have hbody : (many (doublable fun _ => true)).before (Shape.one (· == '"')) =
      doubledBody fun _ => true := by
    have h := @many_doublable_before (fun _ => true) nothing Shape.isTotal_nothing
    rwa [Shape.andThen_nothing, Shape.andThen_nothing] at h
  -- the three openings exclude each other, since their first two characters differ
  have hat (s t : Shape) (cs : List Char) :
      ((Shape.one (· == '@')).andThen ((Shape.one (· == '$')).andThen s)) cs = none ∨
        ((Shape.one (· == '@')).andThen ((Shape.one (· == '"')).andThen t)) cs = none := by
    rcases cs with _ | ⟨c, _ | ⟨d, cs⟩⟩
    · exact .inl rfl
    · exact .inr (by simp)
    · by_cases hd : d = '$' <;> simp [hd]
  have hdollar (s t u : Shape) (cs : List Char) :
      ((Shape.one (· == '$')).andThen s) cs = none ∨
        (((Shape.one (· == '@')).andThen t).orElse ((Shape.one (· == '@')).andThen u)) cs =
          none := by
    rcases cs with _ | ⟨c, cs⟩
    · exact .inl rfl
    · by_cases hc : c = '$' <;> simp [Shape.orElse, hc]
  simp only [shape, verbatimStringPattern, verbatimMarks, char_before, andThen_before,
    orElse_before, Shape.andThen_nothing, hbody, ofExtent_verbatimString, ofExtent_verbatimOpening]
  rw [Shape.orElse_andThen (hdollar _ _ _), Shape.orElse_andThen]
  · simp only [Shape.andThen_assoc]
  · simpa only [Shape.andThen_nothing] using hat (Shape.one (· == '"')) nothing

theorem shape_stringPattern : stringPattern.shape = ofExtent string := by
  have hdisjoint (cs : List Char) :
      ((Shape.one (· == '$')).andThen (Shape.one (· == '"'))) cs = none ∨
        Shape.one (· == '"') cs = none := by
    rcases cs with _ | ⟨c, cs⟩
    · exact .inl rfl
    · by_cases hc : c = '"' <;> simp [hc]
  simp only [shape, stringPattern, optional_before, char_before, andThen_before,
    Shape.andThen_nothing, @many_escapable_before '"' (by decide),
    ofExtent_string, ofExtent_stringOpening, Shape.orElse_andThen hdisjoint, Shape.andThen_assoc]

theorem shape_charLiteralPattern : charLiteralPattern.shape = ofExtent charLiteral := by
  -- the first character is none that closes the literal
  have hfirst : (escapable '\'').before (escapedBody '\'') =
      (Shape.notBefore (· == '\'')).andThen (escapedBody '\'') := by
    have hround := many_before (advances_escapable '\'') (Shape.one (· == '\''))
    rw [many_escapable_before (by decide)] at hround
    funext cs
    rw [Shape.notBefore_andThen]
    rcases cs with _ | ⟨c, cs⟩
    · rfl
    · by_cases hc : c = '\''
      · simp [escapable, Shape.orElse, hc]
      · have hbody := congrFun hround (c :: cs)
        rw [Shape.orElse, Shape.one_cons, if_neg (by simpa using hc), Option.or_none] at hbody
        rw [if_neg (by simpa using hc), hbody]
  simp only [shape, charLiteralPattern, plus, char, andThen_before, one_before,
    Shape.andThen_nothing, @many_escapable_before '\'' (by decide), hfirst,
    ofExtent_charLiteral]

theorem shape_brokenLiteralPattern : brokenLiteralPattern.shape = ofExtent brokenLiteral := by
  have hstops (c : Char) (cs : List Char) (hc : (c == '$' || c == '@') = true) :
      ((Shape.one fun c => c == '"' || c == '\'').andThen (total restOfLine)) (c :: cs) = none := by
    rw [Shape.one_andThen_cons, if_neg]
    rcases (by simpa using hc : c = '$' ∨ c = '@') with rfl | rfl <;> decide
  simp only [shape, brokenLiteralPattern, andThen_before, one_before, line_before_nothing,
    many_one_before_of_stops hstops, ofExtent_brokenLiteral]

theorem shape_radixNumberPattern (lower upper : Char) (digit : Char → Bool) :
    (radixNumberPattern lower upper digit).shape = ofExtent (radixNumber lower upper digit) := by
  simp only [shape, radixNumberPattern, char, andThen_before, one_before,
    many_one_before_of_isTotal Shape.isTotal_nothing, Shape.andThen_nothing,
    plus_one_before_of_isTotal (Shape.isTotal_total _), ofExtent_radixNumber]

theorem shape_numberPattern : numberPattern.shape = ofExtent number := by
  rw [shape, numberPattern, andThen_before, many_one_before_of_isTotal Shape.isTotal_nothing,
    Shape.andThen_nothing, decimal_before (Shape.isTotal_total _), ofExtent_number]

theorem shape_identifierPattern : identifierPattern.shape = ofExtent identifier := by
  simp only [shape, identifierPattern, optional_before, char_before, andThen_before,
    name_before_nothing, ofExtent_identifier]

/-- The rules of C# are those that the expressions stand for. -/
theorem forall₂_rules_patterns : List.Forall₂ Rule.Agrees rules patterns := by
  have hblank : (plus (one Text.isBlank)).shape = ofExtent (run Text.isBlank) := by
    rw [shape, plus_one_before_of_isTotal Shape.isTotal_nothing, Shape.andThen_nothing]
  have hpunctuation : (one isPunctuation).shape = ofExtent punctuation := by
    rw [shape, one_before, Shape.andThen_nothing, ofExtent_punctuation]
  exact .cons ⟨rfl, hblank⟩ <| .cons ⟨rfl, shape_lineCommentPattern⟩ <|
    .cons ⟨rfl, shape_blockCommentPattern⟩ <| .cons ⟨rfl, shape_openCommentPattern⟩ <|
    .cons ⟨rfl, shape_directivePattern⟩ <| .cons ⟨rfl, shape_verbatimStringPattern⟩ <|
    .cons ⟨rfl, shape_stringPattern⟩ <| .cons ⟨rfl, shape_charLiteralPattern⟩ <|
    .cons ⟨rfl, shape_brokenLiteralPattern⟩ <|
    .cons ⟨rfl, shape_radixNumberPattern 'x' 'X' isHexOrSeparator⟩ <|
    .cons ⟨rfl, shape_radixNumberPattern 'b' 'B' isBinaryOrSeparator⟩ <|
    .cons ⟨rfl, shape_numberPattern⟩ <| .cons ⟨rfl, shape_identifierPattern⟩ <|
    .cons ⟨rfl, hpunctuation⟩ .nil

end CSharp

/-! ## Visual Basic -/

namespace VisualBasic

open Shape (ofExtent nothing total)

/-- A character, in either case if it is a letter. -/
def letter (c : Char) : Pattern := one (·.toLower == c)

/-- `_[ \t]*\r?\n` -/
def continuationPattern : Pattern :=
  (char '_').andThen ((many (one fun c => c == ' ' || c == '\t')).andThen
    ((optional (char '\r')).andThen (char '\n')))

/-- `'[^\n]*` -/
def commentPattern : Pattern := (char '\'').andThen line

/-- `(?i:rem)\b[^\n]*` -/
def remarkPattern : Pattern :=
  (letter 'r').andThen ((letter 'e').andThen ((letter 'm').andThen (wordEnd.andThen line)))

/-- `#[0-9][^#\n]*#` -/
def datePattern : Pattern :=
  (char '#').andThen ((one Char.isDigit).andThen
    ((many (one fun c => c ≠ '#' && c ≠ '\n')).andThen (char '#')))

/-- `#[^\n]*` -/
def directivePattern : Pattern := (char '#').andThen line

/-- `"(?:[^"\n]|"")*"[cC]?` -/
def stringPattern : Pattern :=
  (char '"').andThen ((many (doublable (· ≠ '\n'))).andThen
    ((char '"').andThen (optional (one fun c => c == 'c' || c == 'C'))))

/-- `"[^\n]*` -/
def brokenStringPattern : Pattern := (char '"').andThen line

/-- `(?i)&h[0-9a-f_]+[a-z%&]*`, and the same for other radices. -/
def radixNumberPattern (radix : Char) (digit : Char → Bool) : Pattern :=
  (char '&').andThen ((letter radix).andThen
    ((plus (one digit)).andThen (many (one isRadixSuffix))))

/-- `(?i)us|ui|ul|s|i|l|d|f|r|%|&|@|!|#` -/
def numberSuffixPattern : Pattern :=
  ((letter 'u').andThen (one isLetterS)).orElse <|
    ((letter 'u').andThen (letter 'i')).orElse <|
    ((letter 'u').andThen (letter 'l')).orElse <|
    (one isLetterS).orElse <| (letter 'i').orElse <| (letter 'l').orElse <|
    (letter 'd').orElse <| (letter 'f').orElse <| (letter 'r').orElse <|
    (letter '%').orElse <| (letter '&').orElse <| (letter '@').orElse <|
    (letter '!').orElse (letter '#')

/-- `(?i)[0-9][0-9_]*(?:\.[0-9][0-9_]*)?(?:e[+-]?[0-9]+)?(?:us|ui|ul|s|i|l|d|f|r|%|&|@|!|#)?` -/
def numberPattern : Pattern := decimal.andThen (optional numberSuffixPattern)

/-- `\[[\p{L}_][\p{L}\p{N}_]*\]` -/
def bracketedNamePattern : Pattern :=
  (char '[').andThen (Pattern.name.andThen (char ']'))

/-- The expressions of Visual Basic, each with the class of its lexemes, in the order in which they
are tried. -/
def patterns : List (Option LexemeKind × Pattern) := [
  (none, plus (one isLineBlank)),
  (none, continuationPattern),
  (none, commentPattern),
  (none, remarkPattern),
  (some .newline, char '\n'),
  (some .str, datePattern),
  (none, directivePattern),
  (some .str, stringPattern),
  (some .error, brokenStringPattern),
  (some .number, radixNumberPattern 'h' isHexOrSeparator),
  (some .number, radixNumberPattern 'o' isOctalOrSeparator),
  (some .number, radixNumberPattern 'b' isBinaryOrSeparator),
  (some .number, numberPattern),
  (some .ident, bracketedNamePattern),
  (some .ident, Pattern.name),
  (some .punct, one isPunctuation)]

@[simp] theorem letter_before (c : Char) (next : Shape) :
    (letter c).before next = (Shape.one (·.toLower == c)).andThen next := rfl

theorem shape_continuationPattern : continuationPattern.shape = ofExtent continuation := by
  have hend : (optional (char '\r')).before (Shape.one (· == '\n')) = lineEnd := by
    funext cs
    rcases cs with _ | ⟨c, _ | ⟨d, cs⟩⟩
    · rfl
    · by_cases hfeed : c = '\n' <;> simp [Shape.orElse, lineEnd, hfeed]
    · by_cases hfeed : c = '\n' <;> by_cases hreturn : c = '\r' <;> by_cases hd : d = '\n' <;>
        simp_all [Shape.orElse, lineEnd]
  have hstops (c : Char) (cs : List Char) (hc : (c == ' ' || c == '\t') = true) :
      lineEnd (c :: cs) = none := by
    rcases (by simpa using hc : c = ' ' ∨ c = '\t') with rfl | rfl <;> simp [lineEnd]
  rw [shape, continuationPattern, andThen_before, char_before, andThen_before, andThen_before,
    char_before, Shape.andThen_nothing, hend, many_one_before_of_stops hstops,
    ofExtent_continuation]

theorem shape_commentPattern : commentPattern.shape = ofExtent comment := by
  rw [shape, commentPattern, andThen_before, char_before, line_before_nothing, ofExtent_comment]

theorem shape_remarkPattern : remarkPattern.shape = ofExtent remark := by
  simp only [shape, remarkPattern, andThen_before, letter_before, wordEnd_before,
    line_before_nothing, ofExtent_remark]

theorem shape_datePattern : datePattern.shape = ofExtent date := by
  have hstops (c : Char) (cs : List Char) (hc : (decide (c ≠ '#') && decide (c ≠ '\n')) = true) :
      Shape.one (· == '#') (c :: cs) = none := by
    have hc := (by simpa using hc : c ≠ '#' ∧ c ≠ '\n')
    simp [hc.1]
  simp only [shape, datePattern, andThen_before, char_before, one_before, Shape.andThen_nothing,
    many_one_before_of_stops hstops, ofExtent_date]

theorem shape_directivePattern : directivePattern.shape = ofExtent directive := by
  rw [shape, directivePattern, andThen_before, char_before, line_before_nothing,
    ofExtent_directive]

theorem shape_stringPattern : stringPattern.shape = ofExtent string := by
  have htotal (s : Shape) : (s.orElse nothing).IsTotal := by
    intro cs
    rw [Shape.orElse]
    cases s cs <;> rfl
  rw [shape, stringPattern, andThen_before, andThen_before, andThen_before, char_before,
    char_before, optional_before, many_doublable_before (htotal _), one_before,
    Shape.andThen_nothing, Shape.andThen_orElse_nothing, ofExtent_string]

theorem shape_brokenStringPattern : brokenStringPattern.shape = ofExtent brokenString := by
  rw [shape, brokenStringPattern, andThen_before, char_before, line_before_nothing,
    ofExtent_brokenString]

theorem shape_radixNumberPattern (radix : Char) (digit : Char → Bool) :
    (radixNumberPattern radix digit).shape = ofExtent (radixNumber radix digit) := by
  simp only [shape, radixNumberPattern, andThen_before, char_before, letter_before,
    many_one_before_of_isTotal Shape.isTotal_nothing, Shape.andThen_nothing,
    plus_one_before_of_isTotal (Shape.isTotal_total _), ofExtent_radixNumber]

theorem shape_numberSuffixPattern : numberSuffixPattern.shape = ofExtent numberSuffix := by
  have hsingle (c : Char) (hc : c.toLower = 'u') : isLetterS c = false := by
    rw [Bool.eq_false_iff]
    intro hs
    simp only [isLetterS, Bool.or_eq_true, beq_iff_eq] at hs
    rcases hs with (rfl | rfl) | rfl <;> exact absurd hc (by decide)
  simp only [shape, numberSuffixPattern, orElse_before, andThen_before, letter_before, one_before,
    Shape.andThen_nothing, Shape.one_orElse_one, ofExtent_numberSuffix]
  funext cs
  rcases cs with _ | ⟨c, cs⟩
  · rfl
  · by_cases hc : c.toLower = 'u'
    · rcases cs with _ | ⟨d, cs⟩
      · simp [Shape.orElse, hc, hsingle c hc]
      · by_cases hs : isLetterS d = true <;> by_cases hi : d.toLower = 'i' <;>
          by_cases hl : d.toLower = 'l' <;> simp [Shape.orElse, hc, hsingle c hc, hs, hi, hl]
    · simp [Shape.orElse, hc]

theorem shape_numberPattern : numberPattern.shape = ofExtent number := by
  have hsuffix := Shape.ofExtent_orElse_nothing numberSuffix
  rw [shape, numberPattern, andThen_before, optional_before, ← shape, shape_numberSuffixPattern,
    hsuffix, decimal_before (Shape.isTotal_total _), ofExtent_number]

theorem shape_bracketedNamePattern : bracketedNamePattern.shape = ofExtent bracketedName := by
  have hstops (c : Char) (cs : List Char) (hc : continuesName c = true) :
      Shape.one (· == ']') (c :: cs) = none := by
    have hc : c ≠ ']' := by
      rintro rfl
      exact absurd hc (by decide)
    simp [hc]
  rw [shape, bracketedNamePattern, andThen_before, andThen_before, char_before, char_before,
    Shape.andThen_nothing, name_before fun c cs hc => .inl (hstops c cs hc),
    ofExtent_bracketedName]

/-- The rules of Visual Basic are those that the expressions stand for. -/
theorem forall₂_rules_patterns : List.Forall₂ Rule.Agrees rules patterns := by
  have hblank : (plus (one isLineBlank)).shape = ofExtent (run isLineBlank) := by
    rw [shape, plus_one_before_of_isTotal Shape.isTotal_nothing, Shape.andThen_nothing]
  have hnewline : (char '\n').shape = ofExtent newline := by
    rw [shape, char_before, Shape.andThen_nothing, ofExtent_newline]
  have hpunctuation : (one isPunctuation).shape = ofExtent punctuation := by
    rw [shape, one_before, Shape.andThen_nothing, ofExtent_punctuation]
  exact .cons ⟨rfl, hblank⟩ <| .cons ⟨rfl, shape_continuationPattern⟩ <|
    .cons ⟨rfl, shape_commentPattern⟩ <| .cons ⟨rfl, shape_remarkPattern⟩ <|
    .cons ⟨rfl, hnewline⟩ <| .cons ⟨rfl, shape_datePattern⟩ <|
    .cons ⟨rfl, shape_directivePattern⟩ <| .cons ⟨rfl, shape_stringPattern⟩ <|
    .cons ⟨rfl, shape_brokenStringPattern⟩ <|
    .cons ⟨rfl, shape_radixNumberPattern 'h' isHexOrSeparator⟩ <|
    .cons ⟨rfl, shape_radixNumberPattern 'o' isOctalOrSeparator⟩ <|
    .cons ⟨rfl, shape_radixNumberPattern 'b' isBinaryOrSeparator⟩ <|
    .cons ⟨rfl, shape_numberPattern⟩ <| .cons ⟨rfl, shape_bracketedNamePattern⟩ <|
    .cons ⟨rfl, name_before_nothing⟩ <| .cons ⟨rfl, hpunctuation⟩ .nil

end VisualBasic

end ZeroAlloc.Lexis
