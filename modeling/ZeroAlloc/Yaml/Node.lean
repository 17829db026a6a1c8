import ZeroAlloc.Yaml.Layout
set_option autoImplicit false

/-! # Nodes of a settings text

A document is a tree of texts, lists and fields. A node may carry an anchor, and an alias stands for
the node that carries an anchor. Anchors are numbered by how many names came before them, so that a
name used again takes a new number, which the next new name may take over. -/

namespace ZeroAlloc.Yaml

/-- The bytes of a tag. -/
abbrev Tag := List UInt8

/-- What stands in front of a node: the number of its anchor, and its tag. -/
structure Properties where
  anchor : Option Nat
  tag : Option Tag

/-- A node of a document. -/
inductive Node where
  /-- The node with the anchor of a number. -/
  | alias (anchor : Nat)
  | scalar (properties : Properties) (s : Scalar)
  | list (properties : Properties) (items : List Node)
  | fields (properties : Properties) (entries : List (Node × Node))

namespace Node

/-- The node where none is written. -/
def absent : Node := .scalar ⟨none, none⟩ ⟨"", .plain⟩

/-! ## Anchors -/

mutual

/-- The last node below a node, or itself, that carries the anchor of a number. -/
def anchored? (number : Nat) : Node → Option Node
  | .alias _ => none
  | .scalar p s => if p.anchor == some number then some (.scalar p s) else none
  | .list p items =>
    (anchoredItem? number items).or
      (if p.anchor == some number then some (.list p items) else none)
  | .fields p entries =>
    (anchoredPair? number entries).or
      (if p.anchor == some number then some (.fields p entries) else none)

/-- The last node below a list of nodes that carries the anchor of a number. -/
def anchoredItem? (number : Nat) : List Node → Option Node
  | [] => none
  | n :: ns => (anchoredItem? number ns).or (anchored? number n)

/-- The last node below a list of entries that carries the anchor of a number. -/
def anchoredPair? (number : Nat) : List (Node × Node) → Option Node
  | [] => none
  | (k, v) :: entries =>
    (anchoredPair? number entries).or ((anchored? number v).or (anchored? number k))

end

/-- The node that a node within a document stands for. -/
def target? (root : Node) : Node → Option Node
  | .alias number => anchored? number root
  | node => some node

end Node

/-! ## Reading -/

/-- What is left of the tokens of a document, and what its directives and anchors have said so
far. -/
structure NodeReading where
  tokens : List Token
  /-- What the handles of tags stand for. -/
  handles : List (String × List UInt8)
  /-- The numbers of the names of anchors. -/
  names : List (String × Nat)

namespace NodeReading

/-- The reading behind the first token. -/
def skip (r : NodeReading) : NodeReading :=
  { r with tokens := r.tokens.tail }

/-- Give a number to the name of an anchor. -/
def nameAnchor (r : NodeReading) (name : String) : Nat × NodeReading :=
  let number := r.names.length
  (number, { r with names := (name, number) :: r.names.filter (·.1 ≠ name) })

/-- The bytes of a tag, if its handle has been declared. -/
def tagBytes? (r : NodeReading) (handle : String) (suffix : List UInt8) : Option Tag :=
  if handle.isEmpty then some suffix else (r.handles.lookup handle).map (· ++ suffix)

/-- Read the anchor that comes first, if one does. -/
def takeAnchor (r : NodeReading) : Option Nat × NodeReading :=
  match r.tokens with
  | .anchor name :: _ => let (number, r) := r.skip.nameAnchor name; (some number, r)
  | _ => (none, r)

/-- Read the tag that comes first, if one does. -/
def takeTag? (r : NodeReading) : Option (Option Tag × NodeReading) :=
  match r.tokens with
  | .tag handle suffix :: _ => (r.tagBytes? handle suffix).map fun tag => (some tag, r.skip)
  | _ => some (none, r)

/-- Read the properties in front of a node, which may come in any order. -/
def properties? (r : NodeReading) : Option (Properties × NodeReading) := do
  let (early, r) := r.takeAnchor
  let (tag, r) ← r.takeTag?
  let (late, r) := if early.isNone && tag.isSome then r.takeAnchor else (none, r)
  return (⟨early.or late, tag⟩, r)

end NodeReading

/-- A text and its properties as a node. The tag that is a lone mark says that the text is no other
value, which holds anyway. -/
def textNode (p : Properties) (s : Scalar) : Node :=
  .scalar { p with tag := p.tag.filter (· ≠ "!".toUTF8.toList) } s

mutual

/-- Read a node. A list of items that are not indented may stand only where `indentless` says so,
and indented collections only outside brackets. -/
def node? (fuel : Nat) (inBlock indentless : Bool) (r : NodeReading) :
    Option (Node × NodeReading) :=
  match fuel with
  | 0 => none
  | fuel + 1 =>
    match r.tokens with
    | .alias name :: _ => (r.names.lookup name).map fun number => (.alias number, r.skip)
    | _ => do
      let (p, r) ← r.properties?
      match r.tokens, inBlock, indentless with
      | .item :: _, _, true => return (← items? fuel true r).map (.list p) id
      | .scalar s :: _, _, _ => return (textNode p s, r.skip)
      | .openSquare :: _, _, _ => return (← flowItems? fuel true r.skip).map (.list p) id
      | .openBrace :: _, _, _ => return (← flowFields? fuel true r.skip).map (.fields p) id
      | .listStart :: _, true, _ => return (← items? fuel false r.skip).map (.list p) id
      | .fieldsStart :: _, true, _ => return (← fields? fuel r.skip).map (.fields p) id
      | _, _, _ =>
        if p.anchor.isSome || p.tag.isSome then return (textNode p ⟨"", .plain⟩, r) else none

/-- Read a node, unless a token for which `ends` holds shows that none is written. -/
def nodeUnless? (fuel : Nat) (ends : Token → Bool) (inBlock indentless : Bool) (r : NodeReading) :
    Option (Node × NodeReading) :=
  match fuel with
  | 0 => none
  | fuel + 1 =>
    if r.tokens.head?.any ends then some (.absent, r) else node? fuel inBlock indentless r

/-- Read the items of a list outside brackets. The end of one that is not indented is no token. -/
def items? (fuel : Nat) (indentless : Bool) (r : NodeReading) :
    Option (List Node × NodeReading) :=
  match fuel with
  | 0 => none
  | fuel + 1 =>
    match r.tokens, indentless with
    | .item :: _, _ => do
      let ends : Token → Bool
        | .item | .indentEnd => true
        | .key | .value => indentless
        | _ => false
      let (n, r) ← nodeUnless? fuel ends true false r.skip
      return (← items? fuel indentless r).map (n :: ·) id
    | _, true => some ([], r)
    | .indentEnd :: _, false => some ([], r.skip)
    | _, false => none

/-- Read the fields of a mapping outside brackets. -/
def fields? (fuel : Nat) (r : NodeReading) : Option (List (Node × Node) × NodeReading) :=
  match fuel with
  | 0 => none
  | fuel + 1 =>
    let ends : Token → Bool
      | .key | .value | .indentEnd => true
      | _ => false
    match r.tokens with
    | .indentEnd :: _ => some ([], r.skip)
    | .key :: _ => do
      let (k, r) ← nodeUnless? fuel ends true true r.skip
      let (v, r) ← match r.tokens with
        | .value :: _ => nodeUnless? fuel ends true true r.skip
        | _ => some (.absent, r)
      return (← fields? fuel r).map ((k, v) :: ·) id
    | _ => none

/-- Read the items of a list in square brackets. A key makes the item a single field. -/
def flowItems? (fuel : Nat) (first : Bool) (r : NodeReading) : Option (List Node × NodeReading) :=
  match fuel with
  | 0 => none
  | fuel + 1 =>
    let ends : Token → Bool
      | .comma | .closeSquare => true
      | _ => false
    match r.tokens, first with
    | .closeSquare :: _, _ => some ([], r.skip)
    | .comma :: .closeSquare :: _, false => some ([], r.skip.skip)
    | .comma :: _, false => flowItem? fuel ends r.skip
    | _, true => flowItem? fuel ends r
    | _, false => none

/-- Read an item in square brackets and the ones behind it. In place of the text of a key that is
missing the token behind the mark of the key is passed over. -/
def flowItem? (fuel : Nat) (ends : Token → Bool) (r : NodeReading) :
    Option (List Node × NodeReading) :=
  match fuel with
  | 0 => none
  | fuel + 1 =>
    match r.tokens with
    | .key :: .value :: _ => flowPair? fuel ends .absent r.skip.skip
    | .key :: .comma :: _ => flowPair? fuel ends .absent r.skip.skip
    | .key :: .closeSquare :: _ => flowPair? fuel ends .absent r.skip.skip
    | .key :: _ => do
      let (k, r) ← node? fuel false false r.skip
      flowPair? fuel ends k r
    | _ => do
      let (n, r) ← node? fuel false false r
      return (← flowItems? fuel false r).map (n :: ·) id

/-- Read the value of a single field in square brackets and the items behind it. -/
def flowPair? (fuel : Nat) (ends : Token → Bool) (k : Node) (r : NodeReading) :
    Option (List Node × NodeReading) :=
  match fuel with
  | 0 => none
  | fuel + 1 => do
    let (v, r) ← match r.tokens with
      | .value :: _ => nodeUnless? fuel ends false false r.skip
      | _ => some (.absent, r)
    return (← flowItems? fuel false r).map (.fields ⟨none, none⟩ [(k, v)] :: ·) id

/-- Read the fields of a mapping in braces. -/
def flowFields? (fuel : Nat) (first : Bool) (r : NodeReading) :
    Option (List (Node × Node) × NodeReading) :=
  match fuel with
  | 0 => none
  | fuel + 1 =>
    match r.tokens, first with
    | .closeBrace :: _, _ => some ([], r.skip)
    | .comma :: .closeBrace :: _, false => some ([], r.skip.skip)
    | .comma :: _, false => flowField? fuel r.skip
    | _, true => flowField? fuel r
    | _, false => none

/-- Read a field in braces and the ones behind it. A node without the mark of a key has no value. -/
def flowField? (fuel : Nat) (r : NodeReading) : Option (List (Node × Node) × NodeReading) :=
  match fuel with
  | 0 => none
  | fuel + 1 =>
    let ends : Token → Bool
      | .comma | .closeBrace => true
      | _ => false
    match r.tokens with
    | .key :: _ => do
      let (k, r) ← nodeUnless? fuel (fun t => ends t || t matches .value) false false r.skip
      let (v, r) ← match r.tokens with
        | .value :: _ => nodeUnless? fuel ends false false r.skip
        | _ => some (.absent, r)
      return (← flowFields? fuel false r).map ((k, v) :: ·) id
    | _ => do
      let (k, r) ← node? fuel false false r
      return (← flowFields? fuel false r).map ((k, .absent) :: ·) id

end

end ZeroAlloc.Yaml
