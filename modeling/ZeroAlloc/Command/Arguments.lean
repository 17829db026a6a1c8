set_option autoImplicit false

/-! # Arguments

What stands behind the name of a command: options, which start with hyphens and may take a value,
and an operand. An option with a value is settled only by what comes after it, so that of two faults
the one that shows first is reported. -/

namespace ZeroAlloc

/-- Why arguments are no command. The first three ask for a text instead of a command. -/
inductive UsageError where
  | help
  | version
  | helpOnMissing
  | unknownArgument
  | missingArgument
  | unknownCommand
  | invalidValue
  | unexpectedValue
  | repeatedArgument
  deriving DecidableEq

/-- The exit status for the error. Asking for a text is none. -/
def UsageError.status : UsageError → Nat
  | help => 0
  | version => 0
  | _ => 2

/-- What an option takes and does. -/
inductive OptionKind where
  /-- Ask for help. -/
  | help
  /-- Ask for the version. -/
  | version
  /-- Switch something on. -/
  | switch
  /-- Take any text. -/
  | text
  /-- Take a path, which must not be empty. -/
  | path
  deriving DecidableEq

/-- Whether an option takes a value. -/
def OptionKind.takesValue : OptionKind → Bool
  | text => true
  | path => true
  | _ => false

/-- An option by its long name and, if it has one, its letter. -/
structure OptionSpec where
  name : String
  letter : Option Char
  kind : OptionKind
  deriving DecidableEq

/-- A value that has been read and is not settled yet. -/
inductive Pending where
  /-- An option and its value, once that has been read. -/
  | option (spec : OptionSpec) (value : Option String)
  | operand (text : String)

/-- The arguments that have been read. -/
structure Arguments where
  /-- The options that may be given. -/
  options : List OptionSpec
  /-- Whether there may be another operand. -/
  wantsOperand : Bool
  pending : Option Pending
  operand : Option String
  values : List (String × String)
  switches : List String

namespace Arguments

/-- No arguments. -/
def empty (options : List OptionSpec) (wantsOperand : Bool) : Arguments :=
  ⟨options, wantsOperand, none, none, [], []⟩

/-- Take the value of an option. -/
def give (a : Arguments) (spec : OptionSpec) (value : String) : Except UsageError Arguments :=
  if (a.values.lookup spec.name).isSome then .error .repeatedArgument
  else if spec.kind == .path && value.isEmpty then .error .invalidValue
  else .ok { a with values := (spec.name, value) :: a.values }

/-- Settle what is pending. -/
def settle (a : Arguments) : Except UsageError Arguments :=
  match a.pending with
  | none => .ok a
  | some (.option spec (some value)) => { a with pending := none }.give spec value
  | some (.option _ none) => .error .invalidValue
  | some (.operand text) =>
    if text.isEmpty then .error .invalidValue
    else .ok { a with pending := none, operand := some text }

/-- Read an option that takes no value. -/
def switch (a : Arguments) (spec : OptionSpec) : Except UsageError Arguments := do
  let a ← a.settle
  match spec.kind with
  | .help => .error .help
  | .version => .error .version
  | _ =>
    if a.switches.contains spec.name then .error .repeatedArgument
    else .ok { a with switches := spec.name :: a.switches }

/-- Read an option that takes a value, with the value that is attached to it. -/
def valued (a : Arguments) (spec : OptionSpec) (attached : Option String) :
    Except UsageError Arguments := do
  let a ← a.settle
  match attached with
  | some value => a.give spec value
  | none => .ok { a with pending := some (.option spec none) }

/-- Read an option by its long name. -/
def long (a : Arguments) (name : String) (attached : Option String) : Except UsageError Arguments :=
  match a.options.find? (·.name == name) with
  | none => .error .unknownArgument
  | some spec =>
    if spec.kind.takesValue then a.valued spec attached
    else if attached.isSome then .error .unexpectedValue
    else a.switch spec

/-- Read options by their letters. What follows the letter of an option that takes a value is the
value, with or without an equals sign. -/
def letters (a : Arguments) : List Char → Except UsageError Arguments
  | [] => .ok a
  | c :: cs =>
    match a.options.find? (·.letter == some c) with
    | none => .error .unknownArgument
    | some spec =>
      if spec.kind.takesValue then
        match cs with
        | [] => a.valued spec none
        | '=' :: value => a.valued spec (some (String.ofList value))
        | value => a.valued spec (some (String.ofList value))
      else
        match a.switch spec with
        | .ok a => a.letters cs
        | .error e => .error e

/-- Read an operand. -/
def takeOperand (a : Arguments) (text : String) : Except UsageError Arguments := do
  if !a.wantsOperand then .error .unknownArgument
  let a ← a.settle
  return { a with pending := some (.operand text), wantsOperand := false }

/-- Read a text that is no option: the value of an option that still lacks it, or else an
operand. -/
def plain (a : Arguments) (text : String) : Except UsageError Arguments :=
  match a.pending with
  | some (.option spec none) => .ok { a with pending := some (.option spec (some text)) }
  | _ => a.takeOperand text

/-- The two sides of the first equals sign, if there is one. -/
def splitEquals (cs : List Char) : String × Option String :=
  let name := String.ofList (cs.takeWhile (· ≠ '='))
  match cs.dropWhile (· ≠ '=') with
  | [] => (name, none)
  | _ :: value => (name, some (String.ofList value))

/-- Read the rest of the arguments. Behind two hyphens that stand alone there are operands only. -/
def readAll (a : Arguments) (operandsOnly : Bool) : List String → Except UsageError Arguments
  | [] => a.settle
  | arg :: args => do
    if operandsOnly then (← a.takeOperand arg).readAll true args
    else
      match arg.toList with
      | ['-', '-'] => a.readAll true args
      | '-' :: '-' :: cs =>
        let (name, attached) := splitEquals cs
        (← a.long name attached).readAll false args
      | '-' :: c :: cs => (← a.letters (c :: cs)).readAll false args
      | _ => (← a.plain arg).readAll false args

/-- The value of an option. -/
def value? (a : Arguments) (name : String) : Option String :=
  a.values.lookup name

/-- Whether an option is given. -/
def has (a : Arguments) (name : String) : Bool :=
  a.switches.contains name

end Arguments

end ZeroAlloc
