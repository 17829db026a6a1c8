import ZeroAlloc.Yaml.Cell
import ZeroAlloc.Yaml.Charset
set_option autoImplicit false

/-! # Texts within lines

Texts without quotes and texts between quotes may go over several lines. What then stands between
two words is a gap: blanks within a line are kept, a single line feed becomes a space, and of
several ones the first is dropped. -/

namespace ZeroAlloc.Yaml

/-- The blanks and breaks between two words. All lists are in reverse. -/
structure Gap where
  /-- The blanks, as long as the line is not left. -/
  blanks : List Char
  breaks : List Char
  crossed : Bool
  /-- Whether a backslash stood in front of the first break, which then is not among the breaks. -/
  escaped : Bool

namespace Gap

/-- No blanks and no breaks. -/
def empty : Gap := ⟨[], [], false, false⟩

/-- A line left by a backslash. -/
def escapedBreak : Gap := ⟨[], [], true, true⟩

/-- Add a blank or a break. -/
def add (g : Gap) (c : Cell) : Gap :=
  if c.isBreak then { g with breaks := c.char :: g.breaks, crossed := true }
  else if g.crossed then g
  else { g with blanks := c.char :: g.blanks }

/-- Whether something has been added. -/
def isOpen (g : Gap) : Bool :=
  g.crossed || !g.blanks.isEmpty

/-- The breaks behind a word as text. -/
def folded (breaks : List Char) : List Char :=
  match breaks with
  | ['\n'] => [' ']
  | '\n' :: more => more
  | breaks => breaks

/-- What the gap is in the text. -/
def text (g : Gap) : List Char :=
  if !g.crossed then g.blanks.reverse
  else if g.escaped then g.breaks.reverse
  else folded g.breaks.reverse

end Gap

/-! ## Without quotes -/

/-- A text that has been read. -/
structure FlowText where
  text : String
  rest : List Cell
  /-- Whether the text was followed by a break. -/
  crossed : Bool

/-- Whether a character ends a text without quotes in brackets. -/
def closesWord (c : Char) : Bool :=
  c == ',' || c == '[' || c == ']' || c == '\x7b' || c == '\x7d'

/-- Whether the first cell behind a gap belongs to no text that started before the gap. -/
def endsLines (inFlow : Bool) (margin : Nat) (c : Cell) (cs : List Cell) : Bool :=
  (!inFlow && c.column < margin) || Cell.startsMarker (c :: cs) || c.char == '#'

/-- Whether a cell is a colon that must not stand where it stands in brackets. -/
def isStrayColon (inFlow : Bool) (c : Cell) (cs : List Cell) : Bool :=
  inFlow && c.char == ':' && cs.head?.any fun d => closesWord d.char || d.char == '?'

/-- Whether a text without quotes ends in front of a cell. -/
def endsPlain (inFlow : Bool) (c : Cell) (cs : List Cell) : Bool :=
  (c.char == ':' && Cell.endsWord cs) || (inFlow && closesWord c.char)

/-- Read a text without quotes behind characters, which are in reverse, and a gap. Its lines must
not be indented by tabs. -/
def plainFrom (inFlow : Bool) (margin : Nat) (text : List Char) (gap : Gap) :
    List Cell → Option FlowText
  | [] => some ⟨String.ofList text.reverse, [], gap.crossed⟩
  | c :: cs =>
    if c.isBlank || c.isBreak then
      if gap.crossed && c.column < margin && c.char == '\t' then none
      else plainFrom inFlow margin text (gap.add c) cs
    else if gap.isOpen && endsLines inFlow margin c cs then
      some ⟨String.ofList text.reverse, c :: cs, gap.crossed⟩
    else if isStrayColon inFlow c cs then none
    else if endsPlain inFlow c cs then some ⟨String.ofList text.reverse, c :: cs, gap.crossed⟩
    else plainFrom inFlow margin (c.char :: (gap.text.reverse ++ text)) .empty cs

/-- Read the text without quotes that comes first. -/
def plain? (inFlow : Bool) (margin : Nat) (cs : List Cell) : Option FlowText :=
  plainFrom inFlow margin [] .empty cs

/-! ## Between quotes -/

/-- Read a text between single quotes behind characters, which are in reverse, and a gap. -/
def singleQuotedFrom (text : List Char) (gap : Gap) : List Cell → Option (String × List Cell)
  | [] => none
  | c :: cs =>
    if c.isBlank || c.isBreak then singleQuotedFrom text (gap.add c) cs
    else if Cell.startsMarker (c :: cs) then none
    else
      let text := gap.text.reverse ++ text
      if c.char == '\'' then
        match cs with
        | ⟨'\'', _, _⟩ :: cs => singleQuotedFrom ('\'' :: text) .empty cs
        | cs => some (String.ofList text.reverse, cs)
      else singleQuotedFrom (c.char :: text) .empty cs

/-- The character that a letter behind a backslash stands for. -/
def shortEscape? : Char → Option Char
  | '0' => some '\x00'
  | 'a' => some '\x07'
  | 'b' => some '\x08'
  | 't' => some '\t'
  | '\t' => some '\t'
  | 'n' => some '\n'
  | 'v' => some '\x0b'
  | 'f' => some '\x0c'
  | 'r' => some '\r'
  | 'e' => some '\x1b'
  | ' ' => some ' '
  | '"' => some '"'
  | '/' => some '/'
  | '\\' => some '\\'
  | 'N' => some '\x85'
  | '_' => some '\xa0'
  | 'L' => some '\u2028'
  | 'P' => some '\u2029'
  | _ => none

/-- How many digits of a code follow a letter behind a backslash. -/
def codeWidth? : Char → Option Nat
  | 'x' => some 2
  | 'u' => some 4
  | 'U' => some 8
  | _ => none

/-- The character with the code that the first hexadecimal digits spell. -/
def codeChar? (width : Nat) (cs : List Cell) : Option Char :=
  let digits := (cs.take width).map Cell.char
  if digits.length < width then none
  else
    match natural? 16 digits with
    | some code => if code.isValidChar then some (Char.ofNat code) else none
    | none => none

/-- Read a text between double quotes behind characters, which are in reverse, and a gap. -/
def doubleQuotedFrom (text : List Char) (gap : Gap) (cs : List Cell) :
    Option (String × List Cell) :=
  match cs with
  | [] => none
  | c :: cs =>
    if c.isBlank || c.isBreak then doubleQuotedFrom text (gap.add c) cs
    else if Cell.startsMarker (c :: cs) then none
    else
      let text := gap.text.reverse ++ text
      if c.char == '"' then some (String.ofList text.reverse, cs)
      else if c.char == '\\' then
        match cs with
        | [] => none
        | d :: cs =>
          if d.isBreak then doubleQuotedFrom text .escapedBreak cs
          else
            match shortEscape? d.char, codeWidth? d.char with
            | some e, _ => doubleQuotedFrom (e :: text) .empty cs
            | none, some width =>
              match codeChar? width cs with
              | some e => doubleQuotedFrom (e :: text) .empty (cs.drop width)
              | none => none
            | none, none => none
      else doubleQuotedFrom (c.char :: text) .empty cs
termination_by cs.length
decreasing_by
  all_goals simp
  all_goals omega

/-- Read the text behind an opening quote. -/
def quoted? (quote : Char) (cs : List Cell) : Option (String × List Cell) :=
  if quote == '"' then doubleQuotedFrom [] .empty cs else singleQuotedFrom [] .empty cs

end ZeroAlloc.Yaml
