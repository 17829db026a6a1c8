import ZeroAlloc.Yaml.Block
import ZeroAlloc.Yaml.Token
set_option autoImplicit false

/-! # Layout

From characters to tokens. Outside brackets indentation opens and closes collections, and whether a
text is the key of a field shows only at the colon behind it: the places where a key may have
started are kept, and the tokens that announce the key are put in there. -/

namespace ZeroAlloc.Yaml

/-- A place where a key may have started. -/
structure KeyStart where
  line : Nat
  column : Nat
  /-- The number of tokens before it. -/
  before : Nat
  /-- Whether nothing but a key can stand there. -/
  required : Bool

/-- How far a text has been split into tokens. -/
structure Layout where
  /-- The tokens, last first. -/
  tokens : List Token
  /-- The number of tokens. -/
  count : Nat
  /-- The least columns of the texts in the open indented collections, innermost first. -/
  margins : List Nat
  /-- Where a key outside brackets may have started. -/
  outerKey : Option KeyStart
  /-- Where a key may have started within each of the open brackets, innermost first. -/
  innerKeys : List (Option KeyStart)
  /-- Whether a key may start here. -/
  keyAllowed : Bool

namespace Layout

/-- Nothing has been read. -/
def start : Layout := ⟨[], 0, [], none, [], true⟩

/-- Whether a bracket is open. -/
def inFlow (s : Layout) : Bool :=
  !s.innerKeys.isEmpty

/-- The least column of a text in the innermost indented collection. -/
def margin (s : Layout) : Nat :=
  s.margins.head?.getD 0

/-- Add a token. -/
def push (s : Layout) (t : Token) : Layout :=
  { s with tokens := t :: s.tokens, count := s.count + 1 }

/-- Put tokens behind the first ones. -/
def insert (s : Layout) (before : Nat) (ts : List Token) : Layout :=
  { s with
    tokens := s.tokens.take (s.count - before) ++ ts.reverse ++ s.tokens.drop (s.count - before)
    count := s.count + ts.length }

/-- Say whether a key may start behind the last token. -/
def allowKey (s : Layout) (allowed : Bool) : Layout :=
  { s with keyAllowed := allowed }

/-! ## Keys -/

/-- The place where a key may have started within the innermost brackets. -/
def key? (s : Layout) : Option KeyStart :=
  match s.innerKeys with
  | key? :: _ => key?
  | [] => s.outerKey

/-- Change the place where a key may have started within the innermost brackets. -/
def setKey (s : Layout) (key? : Option KeyStart) : Layout :=
  match s.innerKeys with
  | _ :: keys => { s with innerKeys := key? :: keys }
  | [] => { s with outerKey := key? }

/-- Give up the place where a key may have started, unless there has to be one. -/
def dropKey? (s : Layout) : Option Layout :=
  if s.key?.any KeyStart.required then none else some (s.setKey none)

/-- Keep the place of a cell if a key may start there. One has to start there if the indentation is
that of the fields of the innermost collection. -/
def saveKey? (s : Layout) (c : Cell) : Option Layout :=
  if s.keyAllowed then
    s.dropKey?.map fun s =>
      s.setKey (some ⟨c.line, c.column, s.count, !s.inFlow && s.margin == c.column + 1⟩)
  else some s

/-- The place where a key may have started if it still may be one in front of a cell: a key stands
on one line and is no longer than 1024 characters. The inner `none` stands for no place, the outer
one for a lack of a key. -/
def freshKey? (c : Cell) (key? : Option KeyStart) : Option (Option KeyStart) :=
  match key? with
  | none => some none
  | some key =>
    if key.line < c.line || key.column + 1024 < c.column then
      if key.required then none else some none
    else some (some key)

/-- Keep only the places where a key may still have started. -/
def refreshKeys? (s : Layout) (c : Cell) : Option Layout := do
  let outerKey ← freshKey? c s.outerKey
  let innerKeys ← s.innerKeys.mapM (freshKey? c)
  return { s with outerKey, innerKeys }

/-! ## Indentation -/

/-- Open a collection at a column, behind the first tokens, unless one is open that is indented as
much. -/
def indentTo (s : Layout) (column before : Nat) (t : Token) : Layout :=
  if s.inFlow || column < s.margin then s
  else { s.insert before [t] with margins := (column + 1) :: s.margins }

/-- Close the collections that are indented more than to a margin. -/
def unindentAll (margin : Nat) (tokens : List Token) (count : Nat) :
    List Nat → List Token × Nat × List Nat
  | [] => (tokens, count, [])
  | m :: ms =>
    if margin < m then unindentAll margin (.indentEnd :: tokens) (count + 1) ms
    else (tokens, count, m :: ms)

/-- Close the collections that are indented more than to a margin. -/
def unindent (s : Layout) (margin : Nat) : Layout :=
  if s.inFlow then s
  else
    let (tokens, count, margins) := unindentAll margin s.tokens s.count s.margins
    { s with tokens, count, margins }

/-- Close all collections and forbid keys, as in front of a document. -/
def endDocument? (s : Layout) : Option Layout :=
  (s.unindent 0).dropKey?.map (·.allowKey false)

/-! ## Tokens -/

/-- Add the token of an opening bracket. -/
def openFlow? (s : Layout) (c : Cell) (t : Token) : Option Layout :=
  (s.saveKey? c).map fun s =>
    { s.push t with innerKeys := none :: s.innerKeys, keyAllowed := true }

/-- Add the token of a closing bracket. -/
def closeFlow? (s : Layout) (t : Token) : Option Layout :=
  s.dropKey?.map fun s => { s.push t with innerKeys := s.innerKeys.tail, keyAllowed := false }

/-- Add a hyphen in front of an item. -/
def item? (s : Layout) (c : Cell) : Option Layout :=
  if s.inFlow then s.dropKey?.map fun s => (s.push .item).allowKey true
  else if s.keyAllowed then
    (s.indentTo c.column s.count .listStart).dropKey?.map fun s => (s.push .item).allowKey true
  else none

/-- Add a question mark in front of a key. -/
def key (s : Layout) (c : Cell) : Option Layout :=
  if s.inFlow then s.dropKey?.map fun s => (s.push .key).allowKey false
  else if s.keyAllowed then
    (s.indentTo c.column s.count .fieldsStart).dropKey?.map fun s => (s.push .key).allowKey true
  else none

/-- Add a colon in front of a value. -/
def value? (s : Layout) (c : Cell) : Option Layout :=
  match s.key? with
  | some key =>
    let s := (s.insert key.before [.key]).indentTo key.column key.before .fieldsStart
    some (((s.setKey none).push .value).allowKey false)
  | none =>
    if s.inFlow then some ((s.push .value).allowKey false)
    else if s.keyAllowed then
      some (((s.indentTo c.column s.count .fieldsStart).push .value).allowKey true)
    else none

/-- Add a token that may be or start a key. -/
def keyPiece? (s : Layout) (c : Cell) (t : Token) : Option Layout :=
  (s.saveKey? c).map fun s => (s.push t).allowKey false

/-- Add a text without quotes. -/
def plainText? (s : Layout) (c : Cell) (cs : List Cell) : Option (Layout × List Cell) := do
  let read ← plain? s.inFlow s.margin (c :: cs)
  let s ← s.keyPiece? c (.scalar ⟨read.text, .plain⟩)
  return (s.allowKey read.crossed, read.rest)

/-- Add a text of lines. -/
def blockText? (s : Layout) (style : ScalarStyle) (cs : List Cell) :
    Option (Layout × List Cell) := do
  let s ← s.dropKey?
  let (text, rest) ← block? (style == .folded) s.margin cs
  return ((s.push (.scalar ⟨text, style⟩)).allowKey true, rest)

/-- Add a text between quotes. -/
def quotedText? (s : Layout) (c : Cell) (cs : List Cell) : Option (Layout × List Cell) := do
  let (text, rest) ← quoted? c.char cs
  return (← s.keyPiece? c (.scalar ⟨text, .quoted⟩), rest)

/-- Whether a character stands for itself at the start of a text without quotes, if no blank follows
it in some cases. -/
def startsPlain (inFlow : Bool) (c : Cell) (cs : List Cell) : Bool :=
  match c.char with
  | '-' => !cs.head?.any Cell.isBlank
  | '?' | ':' => !inFlow && !Cell.endsWord cs
  | '#' | ',' | '[' | ']' | '\x7b' | '\x7d' | '&' | '*' | '!' | '|' | '>' |
    '\'' | '"' | '%' | '@' | '\x60' =>
    false
  | _ => !(c.isBlank || c.isBreak)

/-- Add a token that needs more than its first character to be told. -/
def longToken? (s : Layout) (c : Cell) (cs : List Cell) : Option (Layout × List Cell) :=
  match c.char with
  | '*' => do
    let (name, rest) ← anchorName? cs
    return (← s.keyPiece? c (.alias name), rest)
  | '&' => do
    let (name, rest) ← anchorName? cs
    return (← s.keyPiece? c (.anchor name), rest)
  | '!' => do
    let (t, rest) ← tag? s.inFlow cs
    return (← s.keyPiece? c t, rest)
  | '|' => if s.inFlow then none else s.blockText? .literal cs
  | '>' => if s.inFlow then none else s.blockText? .folded cs
  | '\'' => s.quotedText? c cs
  | '"' => s.quotedText? c cs
  | _ => if startsPlain s.inFlow c cs then s.plainText? c cs else none

/-- Add the token that comes first. -/
def token? (s : Layout) (c : Cell) (cs : List Cell) : Option (Layout × List Cell) :=
  if c.column = 0 && c.char == '%' then do
    let s ← s.endDocument?
    let (directive, rest) ← directive? cs
    return (s.push (.directive directive), rest)
  else if Cell.startsMarker (c :: cs) then
    s.endDocument?.map fun s =>
      (s.push (if c.char == '-' then .documentStart else .documentEnd), cs.drop 2)
  else
    let one := fun (s : Layout) => (s, cs)
    match c.char with
    | '[' => (s.openFlow? c .openSquare).map one
    | '\x7b' => (s.openFlow? c .openBrace).map one
    | ']' => (s.closeFlow? .closeSquare).map one
    | '\x7d' => (s.closeFlow? .closeBrace).map one
    | ',' => s.dropKey?.map fun s => ((s.push .comma).allowKey true, cs)
    | '-' => if Cell.endsWord cs then (s.item? c).map one else s.longToken? c cs
    | '?' => if s.inFlow || Cell.endsWord cs then (s.key c).map one else s.longToken? c cs
    | ':' => if s.inFlow || Cell.endsWord cs then (s.value? c).map one else s.longToken? c cs
    | _ => s.longToken? c cs

/-! ## Texts -/

/-- Skip blanks, breaks and comments. Tabs count as blanks only where no key may start. Outside
brackets a key may start behind a break. -/
def skipSpace (s : Layout) (inComment : Bool) : List Cell → Layout × List Cell
  | [] => (s, [])
  | c :: cs =>
    if c.isBreak then skipSpace (if s.inFlow then s else s.allowKey true) false cs
    else if inComment || c.char == ' ' || (c.char == '\t' && (s.inFlow || !s.keyAllowed)) then
      skipSpace s inComment cs
    else if c.char == '#' then skipSpace s true cs
    else (s, c :: cs)

/-- Read tokens to the end. Every token takes a cell, so that the fuel suffices that has one unit
more than there are cells. -/
def finish? : (fuel : Nat) → Layout → List Cell → Option Layout
  | 0, _, _ => none
  | fuel + 1, s, cs =>
    match s.skipSpace false cs with
    | (s, []) => s.endDocument?
    | (s, c :: cs) =>
      match ((s.refreshKeys? c).map (·.unindent (c.column + 1))).bind (·.token? c cs) with
      | some (s, rest) => finish? fuel s rest
      | none => none

end Layout

/-- The tokens of a text. -/
def tokens? (text : String) : Option (List Token) := do
  let cells ← Cell.ofText? text
  let layout ← Layout.finish? (cells.length + 1) .start cells
  return layout.tokens.reverse

end ZeroAlloc.Yaml
