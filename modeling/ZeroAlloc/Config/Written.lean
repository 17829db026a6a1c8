import ZeroAlloc.Config
import ZeroAlloc.Yaml.Charset
import ZeroAlloc.Yaml.Typed
set_option autoImplicit false

/-! # Written configurations

A configuration is written as a settings text with a line for each choice.

A text is written without quotes where it then reads as itself, else between single quotes, and
between double quotes if it holds characters that need an escape. A text with line feeds is written
as a block of lines. -/

namespace ZeroAlloc

namespace Yaml

/-- How a text is written. -/
inductive WrittenForm where
  | plain
  | singleQuoted
  | doubleQuoted
  /-- Lines below the place where the text starts. -/
  | block
  deriving DecidableEq

/-! ## What a text holds -/

/-- Whether a blank, a break or the end follows. -/
def endsWord : List Char → Bool
  | [] => true
  | c :: _ => isBlank c || isBreak c || c == '\x00'

/-- Whether a character is one of those that never start a plain text. -/
def isIndicator (c : Char) : Bool :=
  ['#', ',', '[', ']', '\x7b', '\x7d', '&', '*', '!', '|', '>', '\'', '"', '%', '@',
    '\x60'].contains c

/-- Whether characters behind the first one hold a mark: a colon in front of a blank or a hash
behind one. -/
def holdsMark (previous : Char) : List Char → Bool
  | [] => false
  | c :: cs => (c == ':' && endsWord cs) || (c == '#' && endsWord [previous]) || holdsMark c cs

/-- Whether the characters would be taken for something else than text. -/
def holdsIndicator : List Char → Bool
  | [] => false
  | c :: cs =>
    startsMarker (c :: cs) || isIndicator c ||
      ((c == '?' || c == ':' || c == '-') && endsWord cs) || holdsMark c cs

/-- Whether a character for which `p` holds stands directly in front of one for which `q` holds. -/
def holdsPair (p q : Char → Bool) : List Char → Bool
  | c :: d :: cs => (p c && q d) || holdsPair p q (d :: cs)
  | _ => false

/-- Whether a character is a space. -/
def isSpace (c : Char) : Bool :=
  c == ' '

/-- Whether only double quotes can hold the characters. -/
def needsEscapes (cs : List Char) : Bool :=
  cs.any (fun c => !isPrintable c) || holdsPair isSpace isBreak cs

/-- Whether the characters can stand without quotes. -/
def fitsPlain (cs : List Char) : Bool :=
  !(needsEscapes cs || cs.any isBreak || cs.head?.any isSpace || cs.getLast?.any isSpace ||
    holdsIndicator cs)

/-- Whether the characters can stand between single quotes. -/
def fitsSingleQuotes (cs : List Char) : Bool :=
  !(needsEscapes cs || holdsPair isBreak isSpace cs)

/-- Whether the characters can stand in a block. -/
def fitsBlock (cs : List Char) : Bool :=
  !(needsEscapes cs || cs.getLast?.any isSpace)

/-- The form in which a text is written. -/
def formOf (text : String) : WrittenForm :=
  let cs := text.toList
  if cs.contains '\n' then
    if fitsBlock cs then .block else .doubleQuoted
  else if !looksTyped text && fitsPlain cs then .plain
  else if fitsSingleQuotes cs then .singleQuoted
  else .doubleQuoted

/-! ## Forms -/

/-- As many spaces as the margin is wide. -/
def spaces (margin : Nat) : List Char :=
  List.replicate margin ' '

/-- Put the margin in front of every character that follows a break and is none. -/
def padLines (margin : Nat) (afterBreak : Bool) : List Char → List Char
  | [] => []
  | c :: cs =>
    if afterBreak && !isBreak c then spaces margin ++ c :: padLines margin false cs
    else c :: padLines margin (isBreak c) cs

/-- A text between single quotes: a quote in it is written twice. -/
def singleQuoted (margin : Nat) (cs : List Char) : List Char :=
  '\'' :: padLines margin false (cs.flatMap fun c => if c == '\'' then ['\'', '\''] else [c]) ++
    (if cs.getLast?.any isBreak then spaces margin else []) ++ ['\'']

/-- The lowest hexadecimal digits of a number, in capitals. -/
def hexDigits (n : Nat) : (width : Nat) → List Char
  | 0 => []
  | width + 1 => hexDigits (n / 16) width ++ [(Nat.digitChar (n % 16)).toUpper]

/-- A character between double quotes. -/
def escaped (c : Char) : List Char :=
  match c with
  | '\x00' => ['\\', '0']
  | '\x07' => ['\\', 'a']
  | '\x08' => ['\\', 'b']
  | '\t' => ['\\', 't']
  | '\n' => ['\\', 'n']
  | '\x0b' => ['\\', 'v']
  | '\x0c' => ['\\', 'f']
  | '\r' => ['\\', 'r']
  | '\x1b' => ['\\', 'e']
  | '"' => ['\\', '"']
  | '\\' => ['\\', '\\']
  | '\x85' => ['\\', 'N']
  | '\u2028' => ['\\', 'L']
  | '\u2029' => ['\\', 'P']
  | c =>
    if isPrintable c then [c]
    else if c.toNat ≤ 0xFF then ['\\', 'x'] ++ hexDigits c.toNat 2
    else if c.toNat ≤ 0xFFFF then ['\\', 'u'] ++ hexDigits c.toNat 4
    else ['\\', 'U'] ++ hexDigits c.toNat 8

/-- A text between double quotes. -/
def doubleQuoted (cs : List Char) : List Char :=
  '"' :: cs.flatMap escaped ++ ['"']

/-- What is said about a block in front of its lines: its margin if the first line does not show it,
and what becomes of the breaks at its end. -/
def blockHeader (cs : List Char) : List Char :=
  let margin := if cs.head?.any fun c => isSpace c || isBreak c then ['2'] else []
  let ending := match cs.reverse with
    | last :: others =>
      if !isBreak last then ['-'] else if others.head?.all isBreak then ['+'] else []
    | [] => ['-']
  '|' :: margin ++ ending

/-- A text as lines. -/
def block (margin : Nat) (cs : List Char) : List Char :=
  blockHeader cs ++ '\n' :: padLines margin true cs

/-- A text in its form, and the line feed that ends its last line. -/
def written (margin : Nat) (text : String) : List Char :=
  let cs := text.toList
  match formOf text with
  | .plain => cs ++ ['\n']
  | .singleQuoted => singleQuoted margin cs ++ ['\n']
  | .doubleQuoted => doubleQuoted cs ++ ['\n']
  | .block => block margin cs ++ (if cs.getLast?.any isBreak then [] else ['\n'])

/-- A line that starts with a heading behind the margin and goes on with a text. -/
def entry (margin : Nat) (heading text : String) : List Char :=
  spaces margin ++ heading.toList ++ ' ' :: written (margin + 2) text

end Yaml

/-- The word for a truth value. -/
def boolWord (b : Bool) : String :=
  if b then "true" else "false"

/-- The lines for a factory. -/
def Factory.lines (factory : Factory) : List Char :=
  Yaml.entry 2 "namespace:" factory.namespaceName ++ Yaml.entry 2 "type_name:" factory.typeName ++
    Yaml.entry 2 "method:" factory.method

/-- A line with a word, which needs no quotes. -/
def wordLine (heading word : String) : List Char :=
  (heading ++ " " ++ word ++ "\n").toList

namespace Config

/-- The lines for the patterns. -/
def patternLines (patterns : List String) : List Char :=
  if patterns.isEmpty then wordLine "excluded_paths:" "[]"
  else "excluded_paths:\n".toList ++ patterns.flatMap (Yaml.entry 0 "-")

/-- The settings text of a configuration. -/
def written (config : Config) : String :=
  String.ofList <|
    Yaml.entry 0 "version:" config.version ++ "factory:\n".toList ++ config.factory.lines ++
    wordLine "assume_factory_available:" (boolWord config.assumeFactoryAvailable) ++
    wordLine "tolerate_compile_errors:" (boolWord config.tolerateCompileErrors) ++
    wordLine "compiler_generated:" config.compilerGenerated.name ++
    wordLine "severity:" config.severity.name ++ patternLines config.excludedPaths

end Config

end ZeroAlloc
