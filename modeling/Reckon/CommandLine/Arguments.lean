import Reckon.Token.Rules
import Reckon.Value

/-!
# Arguments of the command line

A command, then options and at most one expression. An option waits for its value (`Scan.pending`); the value is looked
at as soon as something else is recognised, so that an unknown argument behind a bad value is what gets reported. After
`--` everything is an expression.
-/

namespace Reckon.CommandLine

/-- What to do with the expression. -/
inductive Action
  /-- Evaluate it. -/
  | eval
  /-- Simplify it. -/
  | simplify
  /-- Write it down. -/
  | render
  /-- List its variables. -/
  | vars
  deriving DecidableEq, Repr

namespace Action

/-- All commands. -/
def all : List Action := [eval, simplify, render, vars]

/-- The name of a command. -/
def name : Action → String
  | eval => "eval"
  | simplify => "simplify"
  | render => "render"
  | vars => "vars"

end Action

/-- An option that takes a value. -/
inductive ValueOption
  | var | subst | enable | disable
  deriving DecidableEq, Repr

namespace ValueOption

/-- All of them. -/
def all : List ValueOption := [var, subst, enable, disable]

/-- The name behind the dashes. -/
def name : ValueOption → String
  | var => "var"
  | subst => "subst"
  | enable => "enable"
  | disable => "disable"

/-- How a message names an option. -/
def describe : ValueOption → String
  | var => "--var <NAME=VALUE>"
  | subst => "--subst <NAME=EXPR>"
  | enable => "--enable <CAPABILITY>"
  | disable => "--disable <CAPABILITY>"

end ValueOption

/-- An option without a value. -/
inductive Flag
  | noMembers | members | verbose | help
  deriving DecidableEq, Repr

namespace Flag

/-- The name behind the dashes. -/
def name : Flag → String
  | noMembers => "no-members"
  | members => "members"
  | verbose => "verbose"
  | help => "help"

/-- How a message names a flag. -/
def describe : Flag → String
  | verbose => "--verbose..."
  | f => "--" ++ f.name

/-- The flags that come before a command. -/
def general : List Flag := [verbose, help]

/-- The flags of a command. -/
def ofAction : Action → List Flag
  | .vars => [noMembers, members, verbose, help]
  | _ => [noMembers, verbose, help]

/-- The flag of a letter. -/
def ofLetter? : Char → Option Flag
  | 'v' => some verbose
  | 'h' => some help
  | _ => none

end Flag

/-- Why the arguments make no sense. -/
inductive UsageError
  /-- There is no command. -/
  | noCommand
  /-- There is nothing at all. -/
  | nothing
  /-- A command that does not exist. -/
  | unknownCommand (name : String)
  /-- An argument that has no place. -/
  | unexpected (arg : String)
  /-- An option without its value. -/
  | missingValue (option : ValueOption)
  /-- A value that an option does not take. -/
  | invalidValue (option : ValueOption) (value reason : String)
  /-- A flag that is given twice. -/
  | repeated (flag : Flag)
  /-- A value for a flag. -/
  | extraValue (flag : Flag) (value : String)
  deriving DecidableEq, Repr

/-- The text of an error; without arguments the help takes its place. -/
def UsageError.message? : UsageError → Option String
  | noCommand => some "'formula' requires a subcommand but one was not provided"
  | nothing => none
  | unknownCommand name => some ("unrecognized subcommand '" ++ name ++ "'")
  | unexpected arg => some ("unexpected argument '" ++ arg ++ "' found")
  | missingValue o => some ("a value is required for '" ++ o.describe ++ "' but none was supplied")
  | invalidValue o value reason => some ("invalid value '" ++ value ++ "' for '" ++ o.describe ++ "': " ++ reason)
  | repeated f => some ("the argument '" ++ f.describe ++ "' cannot be used multiple times")
  | extraValue f value =>
    some ("unexpected value '" ++ value ++ "' for '" ++ f.describe ++ "' found; no more were expected")

/-- What the command line asks for. -/
structure Request where
  /-- The command. -/
  action : Action
  /-- The bound variables, in order. -/
  vars : List (String × Value) := []
  /-- The variables to be replaced by codes, in order. -/
  substitutions : List (String × String) := []
  /-- What is switched on. -/
  enabled : List String := []
  /-- What is switched off, after that. -/
  disabled : List String := []
  /-- Is member access switched off? -/
  noMembers : Bool := false
  /-- Are members to be listed? -/
  members : Bool := false
  /-- The expression, if it is given. -/
  expr : Option String := none

/-- How the reading of the arguments may end early. -/
inductive Stop
  /-- By asking for help. -/
  | help
  /-- By an error. -/
  | error (e : UsageError)

/-! ## Values of options -/

/-- Splits `name=value` at the first equals sign. -/
def splitAssignment (s : String) : Except String (String × List Char) :=
  let cs := s.toList
  match cs.dropWhile (· ≠ '=') with
  | [] => .error "Expected `name=value` format"
  | _ :: value =>
    let name := String.ofList (Text.trim (cs.takeWhile (· ≠ '=')))
    if isValidName name then .ok (name, value) else .error ("`" ++ name ++ "` is not a valid variable name")

/-- Is the text between two quotes of the same kind? -/
def isQuoted (cs : List Char) : Bool :=
  2 ≤ cs.length && ['\'', '"'].any fun q => cs.head? == some q && cs.getLast? == some q

/-- The value of a variable: a string in quotes, a number, or any other string. -/
def readValue (cs : List Char) : Value :=
  let cs := Text.trim cs
  if isQuoted cs then .string (String.ofList (cs.drop 1).dropLast)
  else
    match Numeral.parse cs with
    | some v => .number v
    | none => .string (String.ofList cs)

namespace Request

/-- Takes the value of an option in. -/
def withValue (r : Request) (o : ValueOption) (value : String) : Except UsageError Request :=
  match o with
  | .var =>
    match splitAssignment value with
    | .ok (name, v) => .ok { r with vars := r.vars ++ [(name, readValue v)] }
    | .error reason => .error (.invalidValue o value reason)
  | .subst =>
    match splitAssignment value with
    | .ok (name, code) => .ok { r with substitutions := r.substitutions ++ [(name, String.ofList code)] }
    | .error reason => .error (.invalidValue o value reason)
  | .enable => .ok { r with enabled := r.enabled ++ [value] }
  | .disable => .ok { r with disabled := r.disabled ++ [value] }

/-- Takes a flag in. -/
def withFlag (r : Request) (f : Flag) : Except Stop Request :=
  match f with
  | .noMembers => if r.noMembers then .error (.error (.repeated f)) else .ok { r with noMembers := true }
  | .members => if r.members then .error (.error (.repeated f)) else .ok { r with members := true }
  | .verbose => .ok r
  | .help => .error .help

end Request

/-! ## Reading the arguments of a command -/

/-- How far the arguments of a command have been read. -/
structure Scan where
  /-- What is asked for so far. -/
  request : Request
  /-- The option that was read last, and its value if there is one, not yet looked at. -/
  pending : Option (ValueOption × Option String) := none
  /-- Was there a `--`? -/
  onlyExpressions : Bool := false

/-- The shape of an argument. -/
inductive Shape
  /-- `--` alone. -/
  | separator
  /-- `--name`, or `--name=value`. -/
  | long (name : String) (value : Option String)
  /-- `-abc`. -/
  | short (letters : List Char)
  /-- Anything else. -/
  | plain

/-- The shape of an argument. -/
def Shape.ofArg (arg : String) : Shape :=
  match arg.toList with
  | '-' :: '-' :: rest =>
    if rest = [] then separator
    else
      let name := String.ofList (rest.takeWhile (· ≠ '='))
      match rest.dropWhile (· ≠ '=') with
      | [] => long name none
      | _ :: value => long name (some (String.ofList value))
  | '-' :: rest => if rest = [] then plain else short rest
  | _ => plain

namespace Scan

/-- Looks at the value of the pending option. -/
def resolve (s : Scan) : Except Stop Scan :=
  match s.pending with
  | none => .ok s
  | some (o, none) => .error (.error (.missingValue o))
  | some (o, some value) =>
    match s.request.withValue o value with
    | .ok r => .ok { s with request := r, pending := none }
    | .error e => .error (.error e)

/-- Takes a flag in. -/
def flag (s : Scan) (f : Flag) : Except Stop Scan := do
  let s ← s.resolve
  let r ← s.request.withFlag f
  return { s with request := r }

/-- Takes single letters in. -/
def letters (s : Scan) : List Char → Except Stop Scan
  | [] => .ok s
  | c :: rest =>
    match Flag.ofLetter? c with
    | some f => do letters (← s.flag f) rest
    | none => .error (.error (.unexpected (String.ofList ['-', c])))

/-- Takes an option or flag with its name in. -/
def long (s : Scan) (name : String) (value : Option String) : Except Stop Scan :=
  match ValueOption.all.find? fun o => o.name = name with
  | some o => do
    let s ← s.resolve
    match value with
    | none => return { s with pending := some (o, none) }
    | some v => Scan.resolve { s with pending := some (o, some v) }
  | none =>
    match (Flag.ofAction s.request.action).find? fun f => f.name = name with
    | none => .error (.error (.unexpected ("--" ++ name)))
    | some f =>
      match value with
      | some v => .error (.error (.extraValue f v))
      | none => s.flag f

/-- Takes the expression in. There is only one. -/
def expression (s : Scan) (arg : String) : Except Stop Scan :=
  if s.request.expr.isSome then .error (.error (.unexpected arg))
  else do
    let s ← s.resolve
    return { s with request := { s.request with expr := some arg } }

/-- Takes an argument in. -/
def argument (s : Scan) (arg : String) : Except Stop Scan :=
  if s.onlyExpressions then s.expression arg
  else
    match Shape.ofArg arg with
    | .separator => .ok { s with onlyExpressions := true }
    | .long name value => s.long name value
    | .short cs => s.letters cs
    | .plain =>
      match s.pending with
      | some (o, none) => .ok { s with pending := some (o, some arg) }
      | _ => s.expression arg

end Scan

/-- Reads the arguments of a command. -/
def readCommand (action : Action) (args : List String) : Except Stop Request := do
  let s ← args.foldlM Scan.argument { request := { action := action } }
  return (← s.resolve).request

/-- The arguments behind `help`: at most a command. -/
def readHelp (args : List String) : Stop :=
  let known := "help" :: Action.all.map Action.name
  match args with
  | [] => .help
  | [name] => if known.contains name then .help else .error (.unknownCommand name)
  | name :: other :: _ => .error (.unknownCommand (if known.contains name then other else name))

/-- Reads arguments up to the command; `any` tells whether something was read before. -/
def readGeneral (any : Bool) : List String → Except Stop Request
  | [] => .error (.error (if any then .noCommand else .nothing))
  | arg :: rest =>
    if arg = "help" then .error (readHelp rest)
    else
      match Action.all.find? fun a => a.name = arg with
      | some a => readCommand a rest
      | none =>
        match Shape.ofArg arg with
        | .separator =>
          match rest with
          | [] => .error (.error (if any then .noCommand else .nothing))
          | name :: _ =>
            if ("help" :: Action.all.map Action.name).contains name then .error (.error (.unexpected name))
            else .error (.error (.unknownCommand name))
        | .long name value =>
          match Flag.general.find? fun f => f.name = name with
          | none => .error (.error (.unexpected ("--" ++ name)))
          | some f =>
            match value with
            | some v => .error (.error (.extraValue f v))
            | none => if f = .help then .error .help else readGeneral true rest
        | .short cs =>
          match generalLetters cs with
          | some stop => .error stop
          | none => readGeneral true rest
        | .plain => .error (.error (.unknownCommand arg))
where
  /-- What stops the reading of single letters, if anything does. -/
  generalLetters : List Char → Option Stop
    | [] => none
    | c :: rest =>
      match Flag.ofLetter? c with
      | some .help => some .help
      | some _ => generalLetters rest
      | none => some (.error (.unexpected (String.ofList ['-', c])))

/-- Reads all arguments. -/
def read (args : List String) : Except Stop Request :=
  readGeneral false args

end Reckon.CommandLine
