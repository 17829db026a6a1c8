import ZeroAlloc.Command.Arguments
set_option autoImplicit false

/-! # Commands

What the program can be asked to do: report the allocations, replace them, or write a configuration
to start with. -/

namespace ZeroAlloc

/-- What to report on, and how. Paths are as the user wrote them. -/
structure LintOptions where
  path : String
  config : Option String
  format : String
  showSuppressed : Bool
  deriving DecidableEq

/-- What to fix. -/
structure FixOptions where
  path : String
  config : Option String
  /-- Whether to print the fixed texts and leave the files as they are. -/
  dryRun : Bool
  deriving DecidableEq

/-- What the program is asked to do. -/
inductive Command where
  | lint (options : LintOptions)
  | fix (options : FixOptions)
  /-- Write a configuration to a path. -/
  | init (output : String)
  deriving DecidableEq

namespace Command

/-- The kinds of commands. -/
inductive Kind where
  | lint
  | fix
  | init
  | help
  deriving DecidableEq

/-- The kind of command with a name. -/
def Kind.ofName? : String → Option Kind
  | "lint" => some .lint
  | "check" => some .lint
  | "fix" => some .fix
  | "init" => some .init
  | "help" => some .help
  | _ => none

/-- The option that asks for help. -/
def helpOption : OptionSpec := ⟨"help", some 'h', .help⟩

/-- The option for the path of a configuration. -/
def configOption : OptionSpec := ⟨"config", some 'c', .path⟩

/-- Read the arguments for a report. -/
def parseLint (args : List String) : Except UsageError Command := do
  let options := [helpOption, configOption, ⟨"format", some 'f', .text⟩,
    ⟨"show-suppressed", none, .switch⟩]
  let a ← (Arguments.empty options true).readAll false args
  match a.operand with
  | none => .error .missingArgument
  | some path =>
    return .lint {
      path, config := a.value? "config", format := (a.value? "format").getD "pretty"
      showSuppressed := a.has "show-suppressed" }

/-- Read the arguments for fixing. -/
def parseFix (args : List String) : Except UsageError Command := do
  let options := [helpOption, configOption, ⟨"dry-run", none, .switch⟩]
  let a ← (Arguments.empty options true).readAll false args
  match a.operand with
  | none => .error .missingArgument
  | some path => return .fix { path, config := a.value? "config", dryRun := a.has "dry-run" }

/-- Read the arguments for a new configuration. -/
def parseInit (args : List String) : Except UsageError Command := do
  let options := [helpOption, ⟨"output", some 'o', .path⟩]
  let a ← (Arguments.empty options false).readAll false args
  return .init ((a.value? "output").getD "emptycheck.yaml")

/-- What comes of asking for help on a command, which may be named but has no commands of its
own. -/
def helpOn : List String → UsageError
  | [] => .help
  | [name] => if (Kind.ofName? name).isSome then .help else .unknownCommand
  | _ => .unknownCommand

/-- The options that may stand in front of a command. -/
def leadingOptions : Arguments :=
  .empty [helpOption, ⟨"version", some 'V', .version⟩] false

/-- What is wrong with the arguments behind two hyphens that stand in front of a command. -/
def afterHyphens : List String → UsageError
  | [] => .helpOnMissing
  | name :: _ => if (Kind.ofName? name).isSome then .unknownArgument else .unknownCommand

/-- The error of an argument that should name a command and does not. -/
def leadingError (arg : String) : UsageError :=
  match leadingOptions.readAll false [arg] with
  | .error .unknownArgument =>
    if arg.startsWith "-" && arg ≠ "-" then .unknownArgument else .unknownCommand
  | .error e => e
  | .ok _ => .unknownCommand

/-- The command that arguments ask for. -/
def parse (args : List String) : Except UsageError Command :=
  match args with
  | [] => .error .helpOnMissing
  | "--" :: args => .error (afterHyphens args)
  | name :: args =>
    match Kind.ofName? name with
    | some .lint => parseLint args
    | some .fix => parseFix args
    | some .init => parseInit args
    | some .help => .error (helpOn args)
    | none => .error (leadingError name)

end Command

end ZeroAlloc
