import ZeroAlloc.Lexeme
import ZeroAlloc.Text.Bytes
set_option autoImplicit false

/-! # Lexical rules

The lexis of a language is an ordered list of rules. At each place of a text the first rule that
covers at least one character there gives the next lexeme; a rule without a class covers text that
is dropped, such as blank space and comments. A character that no rule covers is an error lexeme of
its own, so every text has tokens. -/

namespace ZeroAlloc.Lexis

/-- A rule: the class of its lexemes, none if they are dropped, and the number of characters that
the rule covers at the start of a text, zero when it does not apply. -/
structure Rule where
  kind : Option LexemeKind
  extent : List Char → Nat

/-- The class that the first applicable rule gives to the start of a text, and the number of
characters that it covers after the first one. -/
def firstRule : List Rule → List Char → Option LexemeKind × Nat
  | [], _ => (some .error, 0)
  | rule :: rules, cs =>
    match rule.extent cs with
    | 0 => firstRule rules cs
    | n + 1 => (rule.kind, n)

/-- The tokens of a text that starts at a byte offset. -/
def tokensFrom (rules : List Rule) (start : Nat) : List Char → List Token
  | [] => []
  | c :: cs =>
    let (kind, more) := firstRule rules (c :: cs)
    let covered := c :: cs.take more
    let rest := tokensFrom rules (start + Text.byteLength covered) (cs.drop more)
    match kind with
    | some kind => ⟨⟨kind, String.ofList covered⟩, start⟩ :: rest
    | none => rest
termination_by cs => cs.length
decreasing_by
  simp only [List.length_drop, List.length_cons]
  omega

/-- The tokens of a source text. -/
def tokenize (rules : List Rule) (source : String) : List Token :=
  tokensFrom rules 0 source.toList

end ZeroAlloc.Lexis
