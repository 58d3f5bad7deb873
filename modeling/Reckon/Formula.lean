import Reckon.Expr.Parser
import Reckon.Program.Render
import Reckon.Program.Symbols
import Reckon.Simplify

/-!
# Formulas

A program together with the environment and the options it was read with. Transformations give new formulas in the same
environment.
-/

namespace Reckon

variable {σ : Type}

/-- A program in its environment. -/
structure Formula where
  /-- The program. -/
  program : Program
  /-- The environment. -/
  env : Environment
  /-- The options it was read with. -/
  options : Options

namespace Formula

/-- Reads a code with these options. -/
def parseWith (env : Environment) (o : Options) (code : String) : Except ParseError Formula :=
  (Program.parse env.grammar o code).map fun p => ⟨p, env, o⟩

/-- Reads a code with the options of the environment. -/
def parse (env : Environment) (code : String) : Except ParseError Formula :=
  parseWith env env.options code

/-- A program with the options of the environment. -/
def ofProgram (env : Environment) (p : Program) : Formula :=
  ⟨p, env, env.options⟩

/-- The value of the formula. -/
def evaluate (host : Host σ) (f : Formula) (vars : Variables) : Eval σ Value :=
  f.program.evaluate ⟨host, f.env, vars⟩

/-- Folds what the known variables determine. -/
def simplify (host : Host σ) (f : Formula) (known : Variables) : StateM σ Formula := do
  let p ← f.program.simplify ⟨host, f.env, f.options, known⟩
  return { f with program := p }

/-- Replaces a variable by another formula. -/
def substitute (f : Formula) (name : String) (replacement : Formula) : Formula :=
  { f with program := Program.substitute name replacement.program f.program }

/-- Replaces a variable by a literal. -/
def substituteLiteral (f : Formula) (name : String) (l : Literal) : Formula :=
  { f with program := Program.substitute name [.ofLiteral l] f.program }

/-- Replaces a variable by a code, read like the formula itself. -/
def substituteCode (f : Formula) (name code : String) : Except ParseError Formula :=
  (parseWith f.env f.options code).map (f.substitute name)

/-- The names that the formula refers to. -/
def symbols (f : Formula) (members : Bool) : List String :=
  Program.symbols members f.program

/-- The names that are not functions of the environment. -/
def freeVariables (f : Formula) (members : Bool) : List String :=
  (f.symbols members).filter fun name => !f.env.isFunction name

/-- The formula as a code. -/
def render (f : Formula) : String :=
  Program.render f.program

/-- Two formulas of one environment are equal if their options and programs are. -/
def agrees (f g : Formula) : Bool :=
  decide (f.options = g.options) && f.program == g.program

end Formula

/-- Why a code has no value. -/
inductive FormulaError
  /-- It cannot be read. -/
  | parse (e : ParseError)
  /-- It cannot be evaluated. -/
  | eval (e : EvalError)

/-- The text of an error. -/
def FormulaError.message : FormulaError → String
  | parse e => "Failed parsing expression: " ++ e.message
  | eval e => "Failed evaluating expression: " ++ e.message

/-- Reads and evaluates a code. -/
def Environment.evaluate (host : Host σ) (env : Environment) (code : String) (vars : Variables) :
    StateM σ (Except FormulaError Value) :=
  match Formula.parse env code with
  | .error e => pure (.error (.parse e))
  | .ok f => do
    match ← (f.evaluate host vars).run with
    | .ok v => return .ok v
    | .error e => return .error (.eval e)

end Reckon
