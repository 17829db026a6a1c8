set_option autoImplicit false

/-! # Lexemes and tokens

A lexeme is a piece of source text with its class; a token is a lexeme at its place. Everything that
is recognised in a program is recognised from its lexemes alone, so blank space and comments between
them cannot matter; places come in only when findings are reported. -/

namespace ZeroAlloc

/-- The coarse classes of lexemes. Keywords are identifiers. -/
inductive LexemeKind where
  | ident
  | number
  | str
  | punct
  /-- A line break that can end a statement. -/
  | newline
  /-- Text that no rule of the language covers, or a literal or comment left open. -/
  | error
  deriving DecidableEq

/-- A piece of source text and its class. -/
structure Lexeme where
  kind : LexemeKind
  text : String
  deriving DecidableEq

namespace Lexeme

/-- Whether the lexeme is a name or a keyword. -/
def isIdent (l : Lexeme) : Bool :=
  l.kind = .ident

/-- Whether the lexeme is the punctuation `p`. -/
def isPunct (l : Lexeme) (p : String) : Bool :=
  l.kind = .punct && l.text = p

/-- Whether the lexeme is the word `w`, in exactly that spelling. -/
def isWord (l : Lexeme) (w : String) : Bool :=
  l.kind = .ident && l.text = w

/-- Whether the lexeme is a line break. -/
def isNewline (l : Lexeme) : Bool :=
  l.kind = .newline

/-- Whether the lexeme marks malformed text. -/
def isError (l : Lexeme) : Bool :=
  l.kind = .error

end Lexeme

/-- A lexeme that starts at a byte offset of its text. -/
structure Token extends Lexeme where
  start : Nat
  deriving DecidableEq

/-- The offset just behind the token. -/
def Token.stop (t : Token) : Nat :=
  t.start + t.text.utf8ByteSize

/-- The lexemes of a row of tokens. -/
def lexemes (ts : List Token) : List Lexeme :=
  ts.map Token.toLexeme

end ZeroAlloc
