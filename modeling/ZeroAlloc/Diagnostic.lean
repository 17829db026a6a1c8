import ZeroAlloc.Text.Case
set_option autoImplicit false

/-! # Diagnostics and results -/

namespace ZeroAlloc

/-! ## Severities -/

/-- How serious a diagnostic is. -/
inductive Severity where
  | error
  | warning
  | info
  deriving DecidableEq

namespace Severity

/-- The word for the severity. -/
def name : Severity → String
  | error => "error"
  | warning => "warning"
  | info => "info"

/-- The severity that a word names, exactly as written. -/
def ofName? (word : String) : Option Severity :=
  [error, warning, info].find? (·.name == word)

/-- The severity that a word names, in any case, or what is wrong with the word. -/
def parse (word : String) : Except String Severity :=
  match ofName? (Text.lowerAscii word) with
  | some severity => .ok severity
  | none => .error ("unknown severity: " ++ word)

end Severity

/-! ## Diagnostics -/

/-- The identifier of the rule. -/
def ruleId : String := "CA1825"

/-- The name of the rule, which suppressions may use instead of the identifier. -/
def ruleName : String := "avoid_zero_length_array_allocations"

/-- A report on one place of a file. -/
structure Diagnostic where
  ruleId : String
  severity : Severity
  file : String
  line : Nat
  column : Nat
  endLine : Nat
  endColumn : Nat
  message : String
  /-- The factory call to use, in its short form. -/
  argument : String
  language : String
  deriving DecidableEq

/-- A text by which diagnostics are told apart. -/
def Diagnostic.key (d : Diagnostic) : String :=
  d.ruleId ++ "|" ++ d.file ++ "|" ++ toString d.line ++ ":" ++ toString d.column

/-- What a suppression covers. -/
inductive SuppressionScope where
  /-- Its own line. -/
  | line
  /-- The line after it. -/
  | nextLine
  /-- The whole file. -/
  | file
  deriving DecidableEq

namespace SuppressionScope

/-- The word for the scope. -/
def name : SuppressionScope → String
  | line => "line"
  | nextLine => "nextline"
  | file => "file"

/-- The scope that a word names. -/
def ofName? (word : String) : Option SuppressionScope :=
  [line, nextLine, file].find? (·.name == word)

end SuppressionScope

/-- A comment that silences diagnostics. -/
structure Suppression where
  /-- The identifier or name of a rule, or an asterisk for all rules. -/
  rule : String
  reason : String
  file : String
  /-- The line of the comment; zero if it covers the whole file. -/
  line : Nat
  scope : SuppressionScope
  deriving DecidableEq

/-- A silenced diagnostic, with the comment that silences it. -/
structure SuppressedDiagnostic where
  diagnostic : Diagnostic
  suppression : Suppression
  deriving DecidableEq

/-- The outcome of examining some files. -/
structure DetectionResult where
  diagnostics : List Diagnostic
  suppressed : List SuppressedDiagnostic
  /-- The number of files. -/
  scanned : Nat
  deriving DecidableEq

namespace DetectionResult

/-- The outcome of examining no file. -/
def empty : DetectionResult := ⟨[], [], 0⟩

/-- The outcome of examining the files of both. -/
def merge (r other : DetectionResult) : DetectionResult :=
  ⟨r.diagnostics ++ other.diagnostics, r.suppressed ++ other.suppressed, r.scanned + other.scanned⟩

/-- Whether a diagnostic is an error. -/
def hasErrors (r : DetectionResult) : Bool :=
  r.diagnostics.any (·.severity = .error)

/-- Whether there are no diagnostics. -/
def isClean (r : DetectionResult) : Bool :=
  r.diagnostics.isEmpty

theorem merge_empty (r : DetectionResult) : r.merge empty = r := by
  simp [merge, empty]

end DetectionResult

end ZeroAlloc
