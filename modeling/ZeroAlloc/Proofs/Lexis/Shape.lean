import ZeroAlloc.Lexis.CSharp
import ZeroAlloc.Lexis.VisualBasic
set_option autoImplicit false

/-! # Lexical shapes

The rules of both languages are put together from few shapes: a character of a class, a run of them,
the body of a literal, one shape behind another, one or another. Here each rule is written so. What
is proved of the shapes then holds of the rules. -/

namespace ZeroAlloc.Lexis

/-- The number of characters that a shape covers at the start of a text, if it is there. -/
abbrev Shape := List Char → Option Nat

namespace Shape

/-- The shape with an extent, which is not there if it covers nothing. -/
def ofExtent (extent : List Char → Nat) : Shape := fun cs =>
  if extent cs = 0 then none else some (extent cs)

/-- The shape with an extent, which is there even if it covers nothing. -/
def total (extent : List Char → Nat) : Shape := fun cs => some (extent cs)

/-- A character that passes the test. -/
def one (p : Char → Bool) : Shape
  | c :: _ => if p c then some 1 else none
  | [] => none

/-- Nothing, but not in front of a character that passes the test. -/
def notBefore (p : Char → Bool) : Shape := fun cs => if cs.head?.any p then none else some 0

/-- One shape behind the other. -/
def andThen (s t : Shape) : Shape := fun cs => (s cs).bind fun n => (t (cs.drop n)).map (n + ·)

/-- The first of two shapes that is there. -/
def orElse (s t : Shape) : Shape := fun cs => (s cs).or (t cs)

@[simp] theorem one_nil (p : Char → Bool) : one p [] = none := rfl

@[simp] theorem one_cons (p : Char → Bool) (c : Char) (cs : List Char) :
    one p (c :: cs) = if p c then some 1 else none := rfl

@[simp] theorem one_andThen_nil (p : Char → Bool) (s : Shape) : (one p).andThen s [] = none := rfl

@[simp] theorem one_andThen_cons (p : Char → Bool) (s : Shape) (c : Char) (cs : List Char) :
    (one p).andThen s (c :: cs) = if p c then (s cs).map (1 + ·) else none := by
  rw [andThen, one_cons]
  split <;> rfl

@[simp] theorem total_andThen (f : List Char → Nat) (s : Shape) (cs : List Char) :
    (total f).andThen s cs = (s (cs.drop (f cs))).map (f cs + ·) := rfl

@[simp] theorem notBefore_andThen (p : Char → Bool) (s : Shape) (cs : List Char) :
    (notBefore p).andThen s cs = if cs.head?.any p then none else s cs := by
  rw [andThen, notBefore]
  split
  · rfl
  · simp

@[simp] theorem ofExtent_andThen (f : List Char → Nat) (s : Shape) (cs : List Char) :
    (ofExtent f).andThen s cs =
      if f cs = 0 then none else (s (cs.drop (f cs))).map (f cs + ·) := by
  rw [andThen, ofExtent]
  split <;> rfl

/-- The shape is made of characters that do not end a line. -/
inductive IsInline : Shape → Prop where
  | one {p : Char → Bool} (hreturn : p '\r' = false) (hfeed : p '\n' = false) : IsInline (one p)
  | run {p : Char → Bool} (hreturn : p '\r' = false) (hfeed : p '\n' = false) :
      IsInline (total (run p))
  | andThen {s t : Shape} (hs : IsInline s) (ht : IsInline t) : IsInline (s.andThen t)
  | orElse {s t : Shape} (hs : IsInline s) (ht : IsInline t) : IsInline (s.orElse t)
  | toTotal {f : List Char → Nat} (hf : IsInline (ofExtent f)) : IsInline (total f)

end Shape

open Shape

/-! ## Shared shapes -/

theorem ofExtent_wholePart :
    ofExtent wholePart = (one Char.isDigit).andThen (total (run isDigitOrSeparator)) := by
  funext cs
  cases cs with
  | nil => rfl
  | cons c cs => by_cases hc : c.isDigit <;> simp [ofExtent, wholePart, total, hc]

theorem isInline_wholePart : (ofExtent wholePart).IsInline := by
  rw [ofExtent_wholePart]
  exact .andThen (.one (by decide) (by decide)) (.run (by decide) (by decide))

theorem ofExtent_fractionPart :
    ofExtent fractionPart = (one (· == '.')).andThen (ofExtent wholePart) := by
  funext cs
  unfold fractionPart
  cases cs with
  | nil => rfl
  | cons c cs =>
    by_cases hc : c = '.' <;> by_cases hwhole : wholePart cs = 0 <;>
      simp [ofExtent, hc, hwhole]

theorem isInline_fractionPart : (ofExtent fractionPart).IsInline := by
  rw [ofExtent_fractionPart]
  exact .andThen (.one (by decide) (by decide)) isInline_wholePart

theorem ofExtent_run (p : Char → Bool) : ofExtent (run p) = (one p).andThen (total (run p)) := by
  funext cs
  cases cs with
  | nil => rfl
  | cons c cs => by_cases hc : p c <;> simp [ofExtent, run, total, hc, Nat.add_comm]

theorem isInline_run {p : Char → Bool} (hreturn : p '\r' = false) (hfeed : p '\n' = false) :
    (ofExtent (run p)).IsInline := by
  rw [ofExtent_run]
  exact .andThen (.one hreturn hfeed) (.run hreturn hfeed)

theorem ofExtent_sign : ofExtent sign = one fun c => c == '+' || c == '-' := by
  funext cs
  cases cs with
  | nil => rfl
  | cons c cs =>
    by_cases hplus : c = '+' <;> by_cases hminus : c = '-' <;>
      simp [ofExtent, sign, hplus, hminus]

theorem isInline_sign : (ofExtent sign).IsInline := by
  rw [ofExtent_sign]
  exact .one (by decide) (by decide)

theorem ofExtent_exponentPart :
    ofExtent exponentPart = (one fun c => c == 'e' || c == 'E').andThen
      ((total sign).andThen (ofExtent (run Char.isDigit))) := by
  funext cs
  cases cs with
  | nil => rfl
  | cons c cs =>
    by_cases hdigits : run Char.isDigit (cs.drop (sign cs)) = 0 <;>
      by_cases hc : (c == 'e' || c == 'E') = true <;>
      simp [ofExtent, exponentPart, hdigits, hc, Nat.add_assoc]

theorem isInline_exponentPart : (ofExtent exponentPart).IsInline := by
  rw [ofExtent_exponentPart]
  exact .andThen (.one (by decide) (by decide))
    (.andThen isInline_sign.toTotal (isInline_run (by decide) (by decide)))

theorem ofExtent_decimalNumber :
    ofExtent decimalNumber =
      (ofExtent wholePart).andThen ((total fractionPart).andThen (total exponentPart)) := by
  funext cs
  rcases hwhole : wholePart cs with _ | n <;>
    simp [ofExtent, decimalNumber, total, hwhole, Nat.add_assoc]

theorem isInline_decimalNumber : (ofExtent decimalNumber).IsInline := by
  rw [ofExtent_decimalNumber]
  exact .andThen isInline_wholePart
    (.andThen isInline_fractionPart.toTotal isInline_exponentPart.toTotal)

theorem ofExtent_name :
    ofExtent name = (one startsName).andThen (total (run continuesName)) := by
  funext cs
  cases cs with
  | nil => rfl
  | cons c cs => by_cases hc : startsName c <;> simp [ofExtent, name, total, hc]

theorem isInline_name : (ofExtent name).IsInline := by
  rw [ofExtent_name]
  exact .andThen (.one (by decide) (by decide)) (.run (by decide) (by decide))

/-! ## C# -/

namespace CSharp

theorem ofExtent_lineComment : ofExtent lineComment =
    (one (· == '/')).andThen ((one (· == '/')).andThen (total restOfLine)) := by
  funext cs
  rcases cs with _ | ⟨c, _ | ⟨d, cs⟩⟩
  · rfl
  · simp [ofExtent, lineComment]
  · by_cases hc : c = '/' <;> by_cases hd : d = '/' <;>
      simp [ofExtent, lineComment, total, hc, hd, ← Nat.add_assoc]

theorem ofExtent_blockComment : ofExtent blockComment =
    (one (· == '/')).andThen ((one (· == '*')).andThen commentBody) := by
  funext cs
  rcases cs with _ | ⟨c, _ | ⟨d, cs⟩⟩
  · rfl
  · simp [ofExtent, blockComment]
  · by_cases hc : c = '/' <;> by_cases hd : d = '*' <;> cases hbody : commentBody cs <;>
      simp [ofExtent, blockComment, hc, hd, hbody, ← Nat.add_assoc]

theorem ofExtent_openComment : ofExtent openComment =
    (one (· == '/')).andThen ((one (· == '*')).andThen (total List.length)) := by
  funext cs
  rcases cs with _ | ⟨c, _ | ⟨d, cs⟩⟩
  · rfl
  · simp [ofExtent, openComment]
  · by_cases hc : c = '/' <;> by_cases hd : d = '*' <;>
      simp [ofExtent, openComment, total, hc, hd, ← Nat.add_assoc]

theorem ofExtent_directive :
    ofExtent directive = (one (· == '#')).andThen (total restOfLine) := by
  funext cs
  cases cs with
  | nil => rfl
  | cons c cs => by_cases hc : c = '#' <;> simp [ofExtent, directive, total, hc]

theorem ofExtent_verbatimOpening : ofExtent verbatimOpening =
    orElse ((one (· == '$')).andThen ((one (· == '@')).andThen (one (· == '"'))))
      (orElse ((one (· == '@')).andThen ((one (· == '$')).andThen (one (· == '"'))))
        ((one (· == '@')).andThen (one (· == '"')))) := by
  funext cs
  rcases cs with _ | ⟨c, _ | ⟨d, _ | ⟨e, cs⟩⟩⟩
  · rfl
  · simp [ofExtent, verbatimOpening, orElse]
  · by_cases hc : c = '@' <;> by_cases hd : d = '"' <;>
      simp [ofExtent, verbatimOpening, orElse, hc, hd]
  · by_cases hc : c = '$'
    · by_cases hd : d = '@' <;> by_cases he : e = '"' <;>
        simp [ofExtent, verbatimOpening, orElse, hc, hd, he]
    · by_cases hc' : c = '@'
      · by_cases hd : d = '"'
        · simp [ofExtent, verbatimOpening, orElse, hc', hd]
        · by_cases hd' : d = '$' <;> by_cases he : e = '"' <;>
            simp [ofExtent, verbatimOpening, orElse, hc', hd, hd', he]
      · simp [ofExtent, verbatimOpening, orElse, hc, hc']

theorem isInline_verbatimOpening : (ofExtent verbatimOpening).IsInline := by
  have hdollar : (one (· == '$')).IsInline := .one (by decide) (by decide)
  have hat : (one (· == '@')).IsInline := .one (by decide) (by decide)
  have hquote : (one (· == '"')).IsInline := .one (by decide) (by decide)
  rw [ofExtent_verbatimOpening]
  exact .orElse (.andThen hdollar (.andThen hat hquote))
    (.orElse (.andThen hat (.andThen hdollar hquote)) (.andThen hat hquote))

theorem ofExtent_verbatimString : ofExtent verbatimString =
    (ofExtent verbatimOpening).andThen (doubledBody fun _ => true) := by
  funext cs
  rcases hopening : verbatimOpening cs with _ | n
  · simp [ofExtent, verbatimString, hopening]
  · cases hbody : doubledBody (fun _ => true) (cs.drop (n + 1)) <;>
      simp [ofExtent, verbatimString, hopening, hbody]

theorem ofExtent_stringOpening : ofExtent stringOpening =
    orElse ((one (· == '$')).andThen (one (· == '"'))) (one (· == '"')) := by
  funext cs
  unfold ofExtent stringOpening
  rcases cs with _ | ⟨c, _ | ⟨d, cs⟩⟩
  · rfl
  · split <;> simp_all [orElse]
  · split <;> simp_all [orElse]

theorem isInline_stringOpening : (ofExtent stringOpening).IsInline := by
  rw [ofExtent_stringOpening]
  exact .orElse (.andThen (.one (by decide) (by decide)) (.one (by decide) (by decide)))
    (.one (by decide) (by decide))

theorem ofExtent_string : ofExtent string =
    (ofExtent stringOpening).andThen (escapedBody '"') := by
  funext cs
  rcases hopening : stringOpening cs with _ | n
  · simp [ofExtent, string, hopening]
  · cases hbody : escapedBody '"' (cs.drop (n + 1)) <;>
      simp [ofExtent, string, hopening, hbody]

theorem ofExtent_identifier : ofExtent identifier =
    orElse ((one (· == '@')).andThen (ofExtent name)) (ofExtent name) := by
  funext cs
  cases cs with
  | nil => rfl
  | cons c cs =>
    by_cases hc : c = '@'
    · have hname : name ('@' :: cs) = 0 := by
        rw [name, if_neg (by decide)]
      cases hrest : name cs <;> simp [ofExtent, identifier, orElse, hc, hname, hrest, Nat.add_comm]
    · simp [ofExtent, identifier, orElse, hc]

theorem ofExtent_number : ofExtent number =
    (ofExtent decimalNumber).andThen (total (run isNumberSuffix)) := by
  funext cs
  rcases hnumber : decimalNumber cs with _ | n <;>
    simp [ofExtent, number, total, hnumber]

theorem ofExtent_punctuation : ofExtent punctuation = one isPunctuation := by
  funext cs
  cases cs with
  | nil => rfl
  | cons c cs => by_cases hc : isPunctuation c <;> simp [ofExtent, punctuation, hc]

theorem escapedBody_ne_zero (quote : Char) (cs : List Char) : escapedBody quote cs ≠ some 0 := by
  fun_induction escapedBody quote cs <;> simp

/-- A body whose first character does not close it has more than that. -/
theorem escapedBody_ne_one {quote c : Char} (h : c ≠ quote) (cs : List Char) :
    escapedBody quote (c :: cs) ≠ some 1 := by
  cases cs with
  | nil => simp [escapedBody, h]
  | cons d cs =>
    have hmore := escapedBody_ne_zero quote (d :: cs)
    rw [escapedBody, if_neg h]
    split
    · simp
    · split
      · split <;> simp
      · simpa using hmore

theorem ofExtent_charLiteral : ofExtent charLiteral =
    (one (· == '\'')).andThen ((notBefore (· == '\'')).andThen (escapedBody '\'')) := by
  funext cs
  rcases cs with _ | ⟨c, _ | ⟨d, cs⟩⟩
  · rfl
  · by_cases hc : c = '\'' <;> simp [ofExtent, charLiteral, escapedBody, hc]
  · by_cases hc : c = '\''
    · by_cases hd : d = '\''
      · have hbody : escapedBody '\'' (d :: cs) = some 1 := by cases cs <;> simp [escapedBody, hd]
        simp [ofExtent, charLiteral, hc, hd ▸ hbody, hd]
      · have hzero := escapedBody_ne_zero '\'' (d :: cs)
        have hone := escapedBody_ne_one hd cs
        rcases hbody : escapedBody '\'' (d :: cs) with _ | _ | _ | n <;>
          simp_all [ofExtent, charLiteral]
    · simp [ofExtent, charLiteral, hc]

theorem ofExtent_brokenLiteral : ofExtent brokenLiteral =
    (total (run fun c => c == '$' || c == '@')).andThen
      ((one fun c => c == '"' || c == '\'').andThen (total restOfLine)) := by
  funext cs
  rcases hrest : cs.drop (run (fun c => c == '$' || c == '@') cs) with _ | ⟨c, rest⟩
  · simp [ofExtent, brokenLiteral, hrest]
  · by_cases hc : (c == '"' || c == '\'') = true <;>
      simp [ofExtent, brokenLiteral, total, hrest, hc, Nat.add_assoc]

theorem ofExtent_radixNumber (lower upper : Char) (digit : Char → Bool) :
    ofExtent (radixNumber lower upper digit) =
      (one (· == '0')).andThen ((one fun x => x == lower || x == upper).andThen
        ((ofExtent (run digit)).andThen (total (run isIntegerSuffix)))) := by
  funext cs
  rcases cs with _ | ⟨c, _ | ⟨x, cs⟩⟩
  · rfl
  · simp [ofExtent, radixNumber]
  · rcases hdigits : run digit cs with _ | n <;>
      by_cases hc : c = '0' <;> by_cases hx : (x == lower || x == upper) = true <;>
      simp [ofExtent, radixNumber, total, hc, hx, hdigits, ← Nat.add_assoc]

theorem isInline_radixNumber {lower upper : Char} {digit : Char → Bool}
    (hradix : (fun x => x == lower || x == upper) '\r' = false ∧
      (fun x => x == lower || x == upper) '\n' = false)
    (hdigit : digit '\r' = false ∧ digit '\n' = false) :
    (ofExtent (radixNumber lower upper digit)).IsInline := by
  rw [ofExtent_radixNumber]
  exact .andThen (.one (by decide) (by decide)) (.andThen (.one hradix.1 hradix.2)
    (.andThen (isInline_run hdigit.1 hdigit.2) (.run (by decide) (by decide))))

theorem isInline_number : (ofExtent number).IsInline := by
  rw [ofExtent_number]
  exact .andThen isInline_decimalNumber (.run (by decide) (by decide))

theorem isInline_identifier : (ofExtent identifier).IsInline := by
  rw [ofExtent_identifier]
  exact .orElse (.andThen (.one (by decide) (by decide)) isInline_name) isInline_name

theorem isInline_punctuation : (ofExtent punctuation).IsInline := by
  rw [ofExtent_punctuation]
  exact .one (by decide) (by decide)

end CSharp

/-! ## Visual Basic -/

namespace VisualBasic

/-- A line feed, with or without a carriage return in front. -/
def lineEnd : Shape
  | '\n' :: _ => some 1
  | '\r' :: '\n' :: _ => some 2
  | _ => none

theorem ofExtent_continuation : ofExtent continuation =
    (one (· == '_')).andThen ((total (run fun c => c == ' ' || c == '\t')).andThen lineEnd) := by
  funext cs
  cases cs with
  | nil => rfl
  | cons c cs =>
    by_cases hc : c = '_'
    · subst hc
      rw [one_andThen_cons, if_pos (by rfl), total_andThen, ofExtent, continuation]
      generalize run (fun c => c == ' ' || c == '\t') cs = blanks
      rcases cs.drop blanks with _ | ⟨c, rest⟩
      · rfl
      · by_cases hc : c = '\n'
        · simp [lineEnd, hc]
          omega
        · by_cases hc' : c = '\r' ∧ rest.head? = some '\n'
          · obtain ⟨rfl, hrest⟩ := hc'
            obtain ⟨rest, rfl⟩ := List.head?_eq_some_iff.1 hrest
            simp [lineEnd]
            omega
          · rcases rest with _ | ⟨d, rest⟩ <;> simp_all [lineEnd]
    · simp [ofExtent, continuation, hc]

theorem ofExtent_comment :
    ofExtent comment = (one (· == '\'')).andThen (total restOfLine) := by
  funext cs
  cases cs with
  | nil => rfl
  | cons c cs => by_cases hc : c = '\'' <;> simp [ofExtent, comment, total, hc]

theorem ofExtent_remark : ofExtent remark =
    (one (·.toLower == 'r')).andThen ((one (·.toLower == 'e')).andThen
      ((one (·.toLower == 'm')).andThen
        ((notBefore Text.isWordChar).andThen (total restOfLine)))) := by
  funext cs
  rcases cs with _ | ⟨r, _ | ⟨e, _ | ⟨m, cs⟩⟩⟩
  · rfl
  · simp [ofExtent, remark]
  · simp [ofExtent, remark]
  · by_cases hr : r.toLower = 'r' <;> by_cases he : e.toLower = 'e' <;>
      by_cases hm : m.toLower = 'm' <;> by_cases hnext : cs.head?.any Text.isWordChar = true <;>
      simp [ofExtent, remark, total, hr, he, hm, hnext, ← Nat.add_assoc]

theorem ofExtent_newline : ofExtent newline = one (· == '\n') := by
  funext cs
  cases cs with
  | nil => rfl
  | cons c cs => by_cases hc : c = '\n' <;> simp [ofExtent, newline, hc]

theorem ofExtent_date : ofExtent date =
    (one (· == '#')).andThen ((one Char.isDigit).andThen
      ((total (run fun c => c ≠ '#' && c ≠ '\n')).andThen (one (· == '#')))) := by
  funext cs
  rcases cs with _ | ⟨c, _ | ⟨d, cs⟩⟩
  · rfl
  · simp [ofExtent, date]
  · by_cases hc : c = '#' ∧ d.isDigit = true
    · obtain ⟨rfl, hd⟩ := hc
      rw [one_andThen_cons, if_pos (by rfl), one_andThen_cons, if_pos hd, total_andThen, ofExtent,
        date]
      generalize run (fun c => c ≠ '#' && c ≠ '\n') cs = body
      rcases cs.drop body with _ | ⟨e, rest⟩
      · simp
      · by_cases he : e = '#'
        · simp [hd, he]
          omega
        · simp [hd, he]
    · by_cases hmark : c = '#' <;> simp_all [ofExtent, date]

theorem ofExtent_directive :
    ofExtent directive = (one (· == '#')).andThen (total restOfLine) := by
  funext cs
  cases cs with
  | nil => rfl
  | cons c cs => by_cases hc : c = '#' <;> simp [ofExtent, directive, total, hc]

theorem ofExtent_string : ofExtent string =
    (one (· == '"')).andThen (orElse
      (andThen (doubledBody (· ≠ '\n')) (one fun c => c == 'c' || c == 'C'))
      (doubledBody (· ≠ '\n'))) := by
  funext cs
  cases cs with
  | nil => rfl
  | cons c cs =>
    by_cases hc : c = '"'
    · subst hc
      rw [one_andThen_cons, if_pos (by rfl), ofExtent, string, orElse, andThen]
      cases doubledBody (· ≠ '\n') cs with
      | none => rfl
      | some n =>
        rcases hrest : cs.drop n with _ | ⟨d, rest⟩
        · simp [hrest]
        · by_cases hd : d = 'c'
          · simp [hrest, hd]
            omega
          · by_cases hd' : d = 'C'
            · simp [hrest, hd']
              omega
            · simp [hrest, hd, hd']
    · simp [ofExtent, string, hc]

theorem ofExtent_brokenString :
    ofExtent brokenString = (one (· == '"')).andThen (total restOfLine) := by
  funext cs
  cases cs with
  | nil => rfl
  | cons c cs => by_cases hc : c = '"' <;> simp [ofExtent, brokenString, total, hc]

theorem ofExtent_radixNumber (radix : Char) (digit : Char → Bool) :
    ofExtent (radixNumber radix digit) =
      (one (· == '&')).andThen ((one (·.toLower == radix)).andThen
        ((ofExtent (run digit)).andThen (total (run isRadixSuffix)))) := by
  funext cs
  rcases cs with _ | ⟨c, _ | ⟨x, cs⟩⟩
  · rfl
  · simp [ofExtent, radixNumber]
  · rcases hdigits : run digit cs with _ | n <;>
      by_cases hc : c = '&' <;> by_cases hx : (x.toLower == radix) = true <;>
      simp [ofExtent, radixNumber, total, hc, hx, hdigits, ← Nat.add_assoc]

theorem ofExtent_numberSuffix : ofExtent numberSuffix =
    orElse ((one (·.toLower == 'u')).andThen
        (one fun d => isLetterS d || d.toLower == 'i' || d.toLower == 'l'))
      (one fun c =>
        c.toLower ≠ 'u' && (isLetterS c || "ildfr%&@!#".toList.contains c.toLower)) := by
  funext cs
  rcases cs with _ | ⟨c, cs⟩
  · rfl
  · by_cases hc : c.toLower = 'u'
    · rcases cs with _ | ⟨d, cs⟩
      · simp [ofExtent, numberSuffix, orElse, hc]
      · cases hd : isLetterS d || d.toLower == 'i' || d.toLower == 'l' <;>
          simp [ofExtent, numberSuffix, orElse, hc, hd, -Bool.or_eq_true]
    · have hletter : (c.toLower == 'u') ≠ true := by simpa using hc
      have hsuffix : numberSuffix (c :: cs) =
          if isLetterS c || "ildfr%&@!#".toList.contains c.toLower then 1 else 0 := by
        unfold numberSuffix
        exact if_neg hletter
      rw [orElse, one_andThen_cons, if_neg hletter, Option.none_or, one_cons, decide_eq_true hc,
        Bool.true_and, ofExtent, hsuffix]
      split <;> rfl

theorem ofExtent_number : ofExtent number =
    (ofExtent decimalNumber).andThen (total numberSuffix) := by
  funext cs
  rcases hnumber : decimalNumber cs with _ | n <;>
    simp [ofExtent, number, total, hnumber]

theorem ofExtent_bracketedName : ofExtent bracketedName =
    (one (· == '[')).andThen ((ofExtent name).andThen (one (· == ']'))) := by
  funext cs
  cases cs with
  | nil => rfl
  | cons c cs =>
    by_cases hc : c = '['
    · rcases hname : name cs with _ | n
      · simp [ofExtent, bracketedName, hc, hname]
      · rcases hrest : cs.drop (n + 1) with _ | ⟨d, rest⟩
        · simp [ofExtent, bracketedName, hc, hname, hrest, -List.head?_drop]
        · by_cases hd : d = ']'
          · simp [ofExtent, bracketedName, hc, hname, hrest, hd, -List.head?_drop]
            omega
          · simp [ofExtent, bracketedName, hc, hname, hrest, hd, -List.head?_drop]
    · simp [ofExtent, bracketedName, hc]

theorem ofExtent_punctuation : ofExtent punctuation = one isPunctuation := by
  funext cs
  cases cs with
  | nil => rfl
  | cons c cs => by_cases hc : isPunctuation c <;> simp [ofExtent, punctuation, hc]

theorem isInline_radixNumber {radix : Char} {digit : Char → Bool}
    (hradix : (fun x : Char => x.toLower == radix) '\r' = false ∧
      (fun x : Char => x.toLower == radix) '\n' = false)
    (hdigit : digit '\r' = false ∧ digit '\n' = false) :
    (ofExtent (radixNumber radix digit)).IsInline := by
  rw [ofExtent_radixNumber]
  exact .andThen (.one (by decide) (by decide)) (.andThen (.one hradix.1 hradix.2)
    (.andThen (isInline_run hdigit.1 hdigit.2) (.run (by decide) (by decide))))

theorem isInline_numberSuffix : (ofExtent numberSuffix).IsInline := by
  rw [ofExtent_numberSuffix]
  exact .orElse (.andThen (.one (by decide) (by decide)) (.one (by decide) (by decide)))
    (.one (by decide) (by decide))

theorem isInline_number : (ofExtent number).IsInline := by
  rw [ofExtent_number]
  exact .andThen isInline_decimalNumber isInline_numberSuffix.toTotal

theorem isInline_bracketedName : (ofExtent bracketedName).IsInline := by
  rw [ofExtent_bracketedName]
  exact .andThen (.one (by decide) (by decide))
    (.andThen isInline_name (.one (by decide) (by decide)))

theorem isInline_punctuation : (ofExtent punctuation).IsInline := by
  rw [ofExtent_punctuation]
  exact .one (by decide) (by decide)

end VisualBasic

end ZeroAlloc.Lexis
