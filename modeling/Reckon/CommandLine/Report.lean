import Reckon.CommandLine.Arguments
import Reckon.Formula
import Reckon.Host.Chance

/-!
# What the command line answers

An answer is an exit code with the lines for the standard output and the diagnostics: zero if all went well, one if the
arguments make no sense, two if the expression cannot be read or evaluated. A diagnostic names the part of the code it
is about, `expr` or a substitution, with line and column.
-/

namespace Reckon.CommandLine

/-- An answer. -/
structure Report where
  /-- The exit code. -/
  exit : Nat
  /-- The text for the standard output. -/
  output : String := ""
  /-- The lines of the diagnostics. -/
  diagnostics : List String := []
  deriving DecidableEq, Repr

/-- A short help. -/
def help : String :=
  "Usage: formula [OPTIONS] <COMMAND>\n\nCommands:\n  eval      Evaluate the expression\n" ++
    "  simplify  Fold constant subexpressions\n  render    Output the normalized form\n" ++
    "  vars      Output free variables\n  help      Print this message\n"

/-- The first line of a text. -/
def firstLine (s : String) : String :=
  String.ofList (s.toList.takeWhile (· ≠ '\n'))

namespace Report

/-- Lines for the standard output. -/
def lines (ls : List String) : Report :=
  ⟨0, String.join (ls.map (· ++ "\n")), []⟩

/-- An error in the arguments. -/
def usage (e : UsageError) : Report :=
  ⟨1, "", (e.message?.map fun m => firstLine ("error: " ++ m)).toList⟩

/-- The headline of a diagnostic. -/
def headline (code message : String) : String :=
  firstLine ("error[" ++ code ++ "]: " ++ message)

/-- An error in a code. -/
def parseError (file : String) (e : ParseError) : Report :=
  let place := file ++ ":" ++ toString e.location.line ++ ":" ++ toString e.location.column
  ⟨2, "", [headline (if e.cause.isLexical then "LEX" else "PARSE") e.cause.message, place]⟩

/-- An error of the evaluation, which concerns the whole expression. -/
def evalError (e : EvalError) : Report :=
  let note := match e with
    | .undefined name => ["Use `--var " ++ name ++ "=<value>` to define the variable"]
    | _ => []
  ⟨2, "", [headline "EVAL" e.message, "expr:1:1"] ++ note⟩

end Report

namespace Request

/-- The environment that is asked for: what is switched off wins. -/
def environment (r : Request) : Environment :=
  let o := Options.standard.withMemberAccess !r.noMembers
  let o := r.enabled.foldl (fun o name => o.set name true) o
  let o := r.disabled.foldl (fun o name => o.set name false) o
  Environment.standard.withOptions o

/-- Reads the expression and replaces variables, one after the other. -/
def formula (r : Request) (code : String) : Except Report Formula :=
  let env := r.environment
  match Formula.parse env code with
  | .error e => .error (.parseError "expr" e)
  | .ok f => r.substitutions.foldlM (substitute env) f
where
  /-- Replaces one variable. -/
  substitute (env : Environment) (f : Formula) (s : String × String) : Except Report Formula :=
    match Formula.parse env s.2 with
    | .error e => .error (.parseError ("subst:" ++ s.1) e)
    | .ok replacement => .ok (f.substitute s.1 replacement)

/-- Carries a request out. -/
def answer (r : Request) (code : String) : StateM StdGen Report := do
  match r.formula code with
  | .error report => return report
  | .ok f =>
    let vars := Bindings.toVariables (.ofEntries r.vars)
    match r.action with
    | .eval =>
      match ← (f.evaluate .plain vars).run with
      | .ok v => return .lines [v.text]
      | .error e => return .evalError e
    | .simplify => return .lines [(← f.simplify .plain vars).render]
    | .render => return .lines [f.render]
    | .vars => return .lines (f.freeVariables r.members)

end Request

/-- Is the expression to be taken from the standard input? -/
def needsInput (args : List String) : Bool :=
  match read args with
  | .ok r => r.expr.isNone
  | .error _ => false

/-- Answers a command line, given the text of the standard input and a source of randomness. -/
def respond (args : List String) (input : String) : StateM StdGen Report :=
  match read args with
  | .error .help => return ⟨0, help, []⟩
  | .error (.error e) => return .usage e
  | .ok r => r.answer (r.expr.getD input)

end Reckon.CommandLine
