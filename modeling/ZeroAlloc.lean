import ZeroAlloc.Main
import ZeroAlloc.Proofs.CSharp.Narrowing
import ZeroAlloc.Proofs.Compilation.Fixes
import ZeroAlloc.Proofs.Decision.Choice
import ZeroAlloc.Proofs.Site.Shape
import ZeroAlloc.Proofs.Text.Position
import ZeroAlloc.Proofs.CSharp.Shape
import ZeroAlloc.Proofs.VisualBasic.Shape
import ZeroAlloc.Proofs.Document.WellFormed
import ZeroAlloc.Proofs.Document.Edits
import ZeroAlloc.Proofs.Document.Layout
import ZeroAlloc.Proofs.Suppression
import ZeroAlloc.Proofs.Compilation.Files
import ZeroAlloc.Proofs.Compilation.Repetition
import ZeroAlloc.Proofs.Indexed.Attempt
import ZeroAlloc.Proofs.Indexed.Text
import ZeroAlloc.Proofs.Indexed.Row
import ZeroAlloc.Proofs.Indexed.Levels
import ZeroAlloc.Proofs.Indexed.Tree
import ZeroAlloc.Proofs.Indexed.CSharp.TypeRef
import ZeroAlloc.Proofs.Indexed.CSharp.Sites
import ZeroAlloc.Proofs.Indexed.Sites
import ZeroAlloc.Proofs.Indexed.CSharp.Declarations
import ZeroAlloc.Proofs.Indexed.VisualBasic.TypeRef
import ZeroAlloc.Proofs.Indexed.VisualBasic.Sites
import ZeroAlloc.Proofs.Indexed.VisualBasic.Declarations
import ZeroAlloc.Proofs.Indexed.Fold
import ZeroAlloc.Proofs.Indexed.Size
import ZeroAlloc.Proofs.Indexed.Findings
import ZeroAlloc.Proofs.Respelling
import ZeroAlloc.Proofs.Respelling.CSharp.Sites
import ZeroAlloc.Proofs.Respelling.Fold
import ZeroAlloc.Proofs.Document.LetterCase
import ZeroAlloc.Proofs.CSharp.Written
import ZeroAlloc.Proofs.Compilation.LineEnds
import ZeroAlloc.Proofs.Suppression.Marks
import ZeroAlloc.Proofs.Compilation.Keys
import ZeroAlloc.Proofs.Document.TypeArgument
import ZeroAlloc.Proofs.Compilation.Silenced
import ZeroAlloc.Proofs.Document.ByteOrderMark
import ZeroAlloc.Proofs.Document.Nesting
import ZeroAlloc.Proofs.Document.Attributes
import ZeroAlloc.Proofs.Indexed.Edits
import ZeroAlloc.Proofs.Site.Written
import ZeroAlloc.Proofs.VisualBasic.Written
import ZeroAlloc.Proofs.Decision.Elements
import ZeroAlloc.Proofs.Lexis.Following
import ZeroAlloc.Proofs.Compilation.Changed
import ZeroAlloc.Proofs.CSharp.Enclosure
import ZeroAlloc.Proofs.Command.Fixing
import ZeroAlloc.Proofs.Document.Members
import ZeroAlloc.Proofs.Language.Literal
import ZeroAlloc.Proofs.Language.Inlining
import ZeroAlloc.Proofs.VisualBasic.Bounds
import ZeroAlloc.Proofs.Document.Expressions
import ZeroAlloc.Proofs.Indexed.Lines
import ZeroAlloc.Proofs.Suppression.Lines
import ZeroAlloc.Proofs.CSharp.Declarators
import ZeroAlloc.Proofs.Document.Declarators
import ZeroAlloc.Proofs.Document.Calls
import ZeroAlloc.Proofs.Document.Imports
import ZeroAlloc.Proofs.Document.Constants
import ZeroAlloc.Proofs.Bracket.Matching
import ZeroAlloc.Proofs.Bracket.Commas
import ZeroAlloc.Proofs.Report.Sarif
import ZeroAlloc.Proofs.Language.Invocation
