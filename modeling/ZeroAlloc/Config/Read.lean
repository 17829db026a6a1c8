import ZeroAlloc.Config
import ZeroAlloc.Yaml.Document
import ZeroAlloc.Yaml.Typed
set_option autoImplicit false

/-! # Reading configurations

A configuration is read from the fields of a settings text. Fields that are missing keep their
values, and unknown ones are passed over; a known field must not be given twice. -/

namespace ZeroAlloc

namespace Yaml.Node

/-- Whether a text is an empty one without quotes, as where nothing is written. -/
def isEmptyPlain (s : Scalar) : Bool :=
  s.text.isEmpty && s.style == .plain

/-- The text of a node. It does not matter what the text would stand for. -/
def text? (root node : Node) : Option String :=
  match target? root node with
  | some (.scalar _ s) => some s.text
  | _ => none

/-- The truth value of a node: a word without quotes, or lines with the tag for truth values. -/
def bool? (root node : Node) : Option Bool :=
  match target? root node with
  | some (.scalar p s) =>
    if s.style == .plain ||
        (s.style == .literal && p.tag == some "tag:yaml.org,2002:bool".toUTF8.toList) then
      boolOf? s.text
    else none
  | _ => none

/-- The word behind the mark of a tag of the document's own. -/
def tagWord? (tag : Option Tag) : Option String :=
  match tag with
  | some (mark :: word) =>
    if mark == '!'.toNat.toUInt8 then String.fromUTF8? ⟨word.toArray⟩ else none
  | _ => none

/-- The word of a node that names one of several choices: its text, or its tag if the text says that
there is no value. -/
def word? (root node : Node) : Option String :=
  match target? root node with
  | some (.scalar p s) =>
    match tagWord? p.tag with
    | some word =>
      if s.style == .plain && (s.text.isEmpty || nullWords.contains s.text) then some word else none
    | none => some s.text
  | _ => none

/-- The items of a node. An empty text stands for no items. -/
def items? (root node : Node) : Option (List Node) :=
  match target? root node with
  | some (.list _ items) => some items
  | some (.scalar _ s) => if isEmptyPlain s then some [] else none
  | _ => none

/-- The fields of a node with their names. An empty text stands for no fields. -/
def entries? (root node : Node) : Option (List (String × Node)) :=
  match target? root node with
  | some (.fields _ entries) =>
    entries.mapM fun (k, v) => (text? root k).map fun name => (name, v)
  | some (.scalar _ s) => if isEmptyPlain s then some [] else none
  | _ => none

end Yaml.Node

open Yaml (Node)

/-- The value of the field of a name, which may be missing but not be given twice. -/
def fieldOr? {α : Type} (entries : List (String × Node)) (name : String) (missing : α)
    (read : Node → Option α) : Option α :=
  match entries.filter (·.1 == name) with
  | [] => some missing
  | [(_, node)] => read node
  | _ => none

/-- The factory that a node describes. -/
def Factory.ofNode? (root node : Node) : Option Factory := do
  let entries ← Node.entries? root node
  let s := Factory.standard
  return {
    namespaceName := ← fieldOr? entries "namespace" s.namespaceName (Node.text? root)
    typeName := ← fieldOr? entries "type_name" s.typeName (Node.text? root)
    method := ← fieldOr? entries "method" s.method (Node.text? root) }

namespace Config

/-- The configuration that the root of a document describes. -/
def ofNode? (root : Node) : Option Config := do
  let entries ← Node.entries? root root
  let u := Config.unset
  return {
    version := ← fieldOr? entries "version" u.version (Node.text? root)
    factory := ← fieldOr? entries "factory" u.factory (Factory.ofNode? root)
    assumeFactoryAvailable := ←
      fieldOr? entries "assume_factory_available" u.assumeFactoryAvailable (Node.bool? root)
    tolerateCompileErrors := ←
      fieldOr? entries "tolerate_compile_errors" u.tolerateCompileErrors (Node.bool? root)
    compilerGenerated := ← fieldOr? entries "compiler_generated" u.compilerGenerated
      fun n => (Node.word? root n).bind CompilerGeneratedPolicy.ofName?
    severity := ← fieldOr? entries "severity" u.severity
      fun n => (Node.word? root n).bind Severity.ofName?
    excludedPaths := ← fieldOr? entries "excluded_paths" u.excludedPaths
      fun n => (Node.items? root n).bind (List.mapM (Node.text? root)) }

/-- The configuration that a settings text describes. -/
def read? (text : String) : Option Config :=
  (Yaml.document? text).bind ofNode?

end Config

end ZeroAlloc
