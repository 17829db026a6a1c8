set_option autoImplicit false

/-! # Ranges of code points

A property of characters outside ASCII is a table of closed ranges of code points. The tables of the
neighbouring modules follow Unicode 16.0; their ASCII part is written as a test of its own, so that
facts about ASCII text need no table. -/

namespace ZeroAlloc.Text

/-- Closed ranges of code points, in increasing order. -/
abbrev Ranges := Array (Nat × Nat)

/-- Whether one of the ranges holds the character. -/
def Ranges.contains (ranges : Ranges) (c : Char) : Bool :=
  ranges.any fun (low, high) => low ≤ c.toNat && c.toNat ≤ high

/-- Whether the character is one of the first 128. -/
def isAscii (c : Char) : Bool :=
  c.toNat < 0x80

end ZeroAlloc.Text
