import ZeroAlloc.Yaml.Node
set_option autoImplicit false

/-! # Settings documents

A settings text holds one document, or nothing at all. -/

namespace ZeroAlloc.Yaml

/-- What the handles of tags stand for if no directive says it. -/
def standardHandles : List (String × List UInt8) :=
  [("!", "!".toUTF8.toList), ("!!", "tag:yaml.org,2002:".toUTF8.toList)]

/-- What the directives in front of a document have said. -/
structure Preamble where
  versioned : Bool
  handles : List (String × List UInt8)

/-- Take up a directive. There may be one for the version, which has to be known, and one for each
handle. -/
def Preamble.add? (p : Preamble) : Directive → Option Preamble
  | .version major minor =>
    if p.versioned || major ≠ 1 || !(minor == 1 || minor == 2) then none
    else some { p with versioned := true }
  | .tag handle expansion =>
    if (p.handles.lookup handle).isSome then none
    else some { p with handles := (handle, expansion) :: p.handles }

/-- Take up the directives that come first. -/
def Preamble.read? (p : Preamble) : List Token → Option (Preamble × List Token)
  | .directive d :: ts =>
    match p.add? d with
    | some p => p.read? ts
    | none => none
  | ts => some (p, ts)

/-- Whether a token shows that a document holds no node. -/
def endsDocument : Token → Bool
  | .directive _ | .documentStart | .documentEnd => true
  | _ => false

/-- Read the node of a document. The fuel allows for four steps with each token. -/
def contents? (handles : List (String × List UInt8)) (ts : List Token) :
    Option (Node × List Token) :=
  (node? (4 * ts.length + 4) true false ⟨ts, handles ++ standardHandles, []⟩).map fun (n, r) =>
    (n, r.tokens)

/-- Read the document that comes first. -/
def firstDocument? (ts : List Token) : Option (Node × List Token) :=
  match ts with
  | .directive _ :: _ | .documentStart :: _ => do
    let (preamble, ts) ← Preamble.read? ⟨false, []⟩ ts
    match ts with
    | .documentStart :: ts =>
      if ts.head?.all endsDocument then some (.absent, ts) else contents? preamble.handles ts
    | _ => none
  | ts => contents? [] ts

/-- Whether a token is the mark for the end of a document. -/
def isDocumentEnd : Token → Bool
  | .documentEnd => true
  | _ => false

/-- The root node of the only document of a text. A text without any tokens is a document that holds
no node. -/
def document? (text : String) : Option Node := do
  let ts ← tokens? text
  if ts.isEmpty then some .absent
  else
    let (root, rest) ← firstDocument? ts
    if (rest.dropWhile isDocumentEnd).isEmpty then some root else none

end ZeroAlloc.Yaml
