set_option autoImplicit false

/-! # Lines, columns and spans

A position is a line and a column, both counted from one; columns count characters. Lines end at
line feeds. An offset inside a character, or past the end of the text, has no column of its own: it
takes the number of bytes since the start of its line. -/

namespace ZeroAlloc.Text

/-- A line and a column, counted from one. -/
structure Position where
  line : Nat
  column : Nat
  deriving DecidableEq

/-- How far a walk over a text has come. -/
structure Walk where
  /-- Bytes passed. -/
  offset : Nat
  /-- Line feeds passed. -/
  lines : Nat
  /-- Offset at which the present line starts. -/
  lineStart : Nat
  /-- Characters passed on the present line. -/
  columns : Nat

namespace Walk

/-- The walk before the first character. -/
def start : Walk := ⟨0, 0, 0, 0⟩

/-- Pass one character. -/
def pass (w : Walk) (c : Char) : Walk :=
  let offset := w.offset + c.utf8Size
  if c = '\n' then ⟨offset, w.lines + 1, offset, 0⟩
  else ⟨offset, w.lines, w.lineStart, w.columns + 1⟩

/-- The position of the next character. -/
def position (w : Walk) : Position := ⟨w.lines + 1, w.columns + 1⟩

/-- The position of an offset on the present line at which no character starts. -/
def positionInside (w : Walk) (offset : Nat) : Position := ⟨w.lines + 1, offset - w.lineStart + 1⟩

/-- The position of an offset that the walk has not passed. -/
def positionOf (w : Walk) (offset : Nat) : List Char → Position
  | [] => if offset = w.offset then w.position else w.positionInside offset
  | c :: cs =>
    if offset = w.offset then w.position
    else if offset < w.offset + c.utf8Size then w.positionInside offset
    else (w.pass c).positionOf offset cs

end Walk

/-- The line and column of a byte offset. -/
def positionAt (cs : List Char) (offset : Nat) : Position :=
  Walk.start.positionOf offset cs

/-- A stretch of text: its bytes from `start` up to `stop`, and the positions of the two ends. -/
structure Span where
  start : Nat
  stop : Nat
  first : Position
  last : Position
  deriving DecidableEq

namespace Span

/-- The span of the bytes from `start` up to `stop`. -/
def of (cs : List Char) (start stop : Nat) : Span :=
  ⟨start, stop, positionAt cs start, positionAt cs stop⟩

/-- Whether the other span lies entirely within this one. -/
def contains (s other : Span) : Bool :=
  s.start ≤ other.start && other.stop ≤ s.stop

/-- The line and column at which the span starts, as messages show it. -/
def label (s : Span) : String :=
  toString s.first.line ++ ":" ++ toString s.first.column

end Span

end ZeroAlloc.Text
