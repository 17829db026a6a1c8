import ZeroAlloc.Diagnostic
import ZeroAlloc.Text.Blank
import ZeroAlloc.Text.CharClass
set_option autoImplicit false

/-! # Suppressions

Comments that silence diagnostics, such as `// emptycheck:ignore CA1825 - reason`. They are looked
for line by line, in the comment marks of either language. A line has at most one. -/

namespace ZeroAlloc.Suppression

/-! ## Lines -/

/-- The lines of a text, without the line feed or carriage return and line feed that end them. A
line feed at the end of the text starts no further line. -/
def linesFrom (line : List Char) : List Char → List (List Char)
  | [] => if line.isEmpty then [] else [line.reverse]
  | '\r' :: '\n' :: cs => line.reverse :: linesFrom [] cs
  | '\n' :: cs => line.reverse :: linesFrom [] cs
  | c :: cs => linesFrom (c :: line) cs

/-- The lines of a text. -/
def lines (text : String) : List (List Char) :=
  linesFrom [] text.toList

/-! ## Directives -/

/-- The directives, of which the plain one covers its own line or the next. -/
inductive Directive where
  | ignore
  | ignoreFile
  | ignoreNextLine
  deriving DecidableEq

/-- A directive as read from a line. -/
structure Match where
  /-- The line before the comment mark. -/
  before : List Char
  directive : Directive
  rule : List Char
  reason : List Char

/-- What follows the text `start`, if the characters start with it. -/
def after? (start : String) (cs : List Char) : Option (List Char) :=
  if start.toList.isPrefixOf cs then some (cs.drop start.length) else none

/-- The word of a directive and what follows it. -/
def directive? (cs : List Char) : Option (Directive × List Char) :=
  (after? "ignore" cs).map fun rest =>
    match after? "-file" rest with
    | some rest => (.ignoreFile, rest)
    | none =>
      match after? "-next-line" rest with
      | some rest => (.ignoreNextLine, rest)
      | none => (.ignore, rest)

/-- The directive behind a comment mark, and what follows the blank characters after its word. At
least one of them is there, and something else behind them. -/
def heading? (cs : List Char) : Option (Directive × List Char) :=
  (after? "emptycheck:" (cs.dropWhile Text.isBlank)).bind fun rest =>
    (directive? rest).bind fun (directive, rest) =>
      let selector := rest.dropWhile Text.isBlank
      if rest.head?.any Text.isBlank && !selector.isEmpty then some (directive, selector) else none

/-- The rule and the reason of a directive that runs to the end of its line. -/
def selection (cs : List Char) : List Char × List Char :=
  let rule := cs.takeWhile (!Text.isBlank ·)
  match (cs.dropWhile (!Text.isBlank ·)).dropWhile Text.isBlank with
  | '-' :: reason => (rule, Text.trim reason)
  | _ => (rule, [])

/-- The text before the end of a block comment. -/
def beforeCommentEnd? : List Char → Option (List Char)
  | '*' :: '/' :: _ => some []
  | c :: cs => (beforeCommentEnd? cs).map (c :: ·)
  | [] => none

/-- The reason of a directive in a block comment, given what follows the rule: a dash with the
reason, or the end of the comment. -/
def enclosedReason? (cs : List Char) : Option (List Char) :=
  match cs.dropWhile Text.isBlank with
  | '-' :: reason => (beforeCommentEnd? reason).map Text.trim
  | '*' :: '/' :: _ => some []
  | _ => none

/-- The rule and the reason of a directive in a block comment that ends on the same line. The rule
is as long as possible, but no longer than `length`. -/
def enclosedSelection? (cs : List Char) : (length : Nat) → Option (List Char × List Char)
  | 0 => none
  | length + 1 =>
    match enclosedReason? (cs.drop (length + 1)) with
    | some reason => some (cs.take (length + 1), reason)
    | none => enclosedSelection? cs length

/-- The directive of a line comment that starts with the characters, in C#. -/
def lineComment? (before cs : List Char) : Option Match :=
  (after? "//" cs).bind fun rest =>
    (heading? rest).map fun (directive, selector) =>
      let (rule, reason) := selection selector
      ⟨before.reverse, directive, rule, reason⟩

/-- The directive of a block comment that starts with the characters. -/
def blockComment? (before cs : List Char) : Option Match :=
  (after? "/*" cs).bind fun rest =>
    (heading? rest).bind fun (directive, selector) =>
      (enclosedSelection? selector (selector.takeWhile (!Text.isBlank ·)).length).map
        fun (rule, reason) => ⟨before.reverse, directive, rule, reason⟩

/-- What follows the word `Rem`, in any case, if no other word character adjoins it. -/
def afterRemark? (before cs : List Char) : Option (List Char) :=
  match cs with
  | r :: e :: m :: rest =>
    if r.toLower == 'r' && e.toLower == 'e' && m.toLower == 'm' &&
        !(before.head?.any Text.isWordChar) && !(rest.head?.any Text.isWordChar) then
      some rest
    else none
  | _ => none

/-- The directive of a comment that starts with the characters, in Visual Basic. -/
def basicComment? (before cs : List Char) : Option Match :=
  let rest? := match after? "'" cs with
    | some rest => some rest
    | none => afterRemark? before cs
  rest?.bind fun rest =>
    (heading? rest).map fun (directive, selector) =>
      let (rule, reason) := selection selector
      ⟨before.reverse, directive, rule, reason⟩

/-- The first match of a comment form in a line, given the characters before it, nearest first. -/
def firstMatch? (form : List Char → List Char → Option Match) (before : List Char) :
    List Char → Option Match
  | [] => none
  | c :: cs =>
    match form before (c :: cs) with
    | some found => some found
    | none => firstMatch? form (c :: before) cs

/-! ## Suppressions of a file -/

/-- How many lines may carry suppressions of the whole file in any case. -/
def headerLines : Nat := 10

/-- Whether a trimmed line is blank or a comment, in either language. -/
def isCommentOrBlank (cs : List Char) : Bool :=
  cs.isEmpty || ["//", "/*", "*", "'"].any (fun mark => (after? mark cs).isSome) ||
    (cs.take 4).map Char.toLower == "rem ".toList

/-- The suppression that a directive stands for. A suppression of the whole file counts only in the
first lines and before the first line of code. A plain directive that stands alone on its line
covers the next line, and its own line behind code. -/
def ofMatch? (file : String) (inHeader : Bool) (line : Nat) (found : Match) : Option Suppression :=
  let suppression (line : Nat) (scope : SuppressionScope) : Suppression :=
    ⟨String.ofList found.rule, String.ofList found.reason, file, line, scope⟩
  match found.directive with
  | .ignoreFile => if inHeader || line ≤ headerLines then some (suppression 0 .file) else none
  | .ignoreNextLine => some (suppression line .nextLine)
  | .ignore =>
    if (Text.trim found.before).isEmpty then some (suppression line .nextLine)
    else some (suppression line .line)

/-- The suppression on a line: the first comment form with one. -/
def ofLine? (file : String) (inHeader : Bool) (line : Nat) (cs : List Char) : Option Suppression :=
  [lineComment?, blockComment?, basicComment?].findSome? fun form =>
    (firstMatch? form [] cs).bind (ofMatch? file inHeader line)

/-- The suppressions in the lines of a file from the given one on. -/
def ofLines (file : String) (inHeader : Bool) (line : Nat) : List (List Char) → List Suppression
  | [] => []
  | cs :: rest =>
    let inHeader := inHeader && isCommentOrBlank (Text.trim cs)
    (ofLine? file inHeader line cs).toList ++ ofLines file inHeader (line + 1) rest

/-- The suppressions in a file. -/
def parse (file source : String) : List Suppression :=
  ofLines file true 1 (lines source)

/-! ## Silencing -/

/-- Whether the suppression names the rule. -/
def namesRule (s : Suppression) : Bool :=
  s.rule == "*" || Text.equalIgnoringCase s.rule ZeroAlloc.ruleId ||
    Text.equalIgnoringCase s.rule ZeroAlloc.ruleName

/-- Whether the suppression silences the diagnostic. -/
def covers (s : Suppression) (d : Diagnostic) : Bool :=
  d.file == s.file && s.namesRule &&
    match s.scope with
    | .file => true
    | .line => d.line == s.line
    | .nextLine => d.line == s.line + 1

/-- The diagnostics that no suppression silences. -/
def active (suppressions : List Suppression) (ds : List Diagnostic) : List Diagnostic :=
  ds.filter fun d => !suppressions.any (·.covers d)

/-- The silenced diagnostics, each with the first suppression that silences it. -/
def suppressed (suppressions : List Suppression) (ds : List Diagnostic) :
    List SuppressedDiagnostic :=
  ds.filterMap fun d => (suppressions.find? (·.covers d)).map fun s => ⟨d, s⟩

end ZeroAlloc.Suppression
