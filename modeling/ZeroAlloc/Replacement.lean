import ZeroAlloc.Decision
import ZeroAlloc.Edit
set_option autoImplicit false

/-! # Replacing flagged sites

A flagged allocation is replaced by a call of the factory. A file that imports the namespace of the
factory calls it by its short name. -/

namespace ZeroAlloc

namespace Document

/-- Whether the file calls the factory by its short name. -/
def usesShortForm (doc : Document) (factory : Factory) : Bool :=
  doc.importsNamespace factory.namespaceName

/-- The call that takes the place of a finding. -/
def replacement (doc : Document) (factory : Factory) (finding : Finding) : String :=
  let qualifier := if doc.usesShortForm factory then none else some factory.namespaceName
  doc.language.invocation qualifier factory finding.typeArgument

/-- The edit that removes a finding. There is none if the type argument is empty. -/
def edit? (doc : Document) (factory : Factory) (finding : Finding) : Option Edit :=
  let call := doc.replacement factory finding
  let message := "Use " ++ call ++ " instead"
  if finding.typeArgument.isEmpty then none
  else
    match finding.site.origin with
    | .paramArray needsSeparator =>
      let offset := doc.insertionOffset finding.site
      some ⟨offset, offset, (if needsSeparator then ", " else "") ++ call, message⟩
    | _ =>
      let span := doc.siteSpan finding.site
      some ⟨span.start, span.stop, call, message⟩

end Document

/-- The edits of a row without those that overlap one kept before them. -/
def keepDisjoint (edits : List Edit) : List Edit :=
  edits.foldl (fun kept e => if kept.any (·.overlaps e) then kept else kept ++ [e]) []

/-- The edits for a row of findings, of which those that overlap an earlier one are left out. -/
def Document.edits (doc : Document) (factory : Factory) (findings : List Finding) : List Edit :=
  keepDisjoint (findings.filterMap (doc.edit? factory))

end ZeroAlloc
