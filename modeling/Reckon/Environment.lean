import Reckon.EvalError
import Reckon.Grammar.Standard
import Reckon.Options
import Reckon.Value

/-!
# Environments

The operators, functions and constants that a code may use, and the options it is read with. An environment is a grammar
(`Environment.grammar`), and it resolves names: functions and enabled unary operators come before the variables of the
caller, constants after them (`Environment.resolve?`).
-/

namespace Reckon

/-- What a code may use. -/
structure Environment where
  /-- Operators with one operand. -/
  unary : Table Function
  /-- Operators with two operands. -/
  binary : Table Function
  /-- Operators with three operands. -/
  ternary : Table Function
  /-- Functions. -/
  functions : Table Function
  /-- Constants. -/
  constants : Table Literal
  /-- The options that a code is read with. -/
  options : Options

namespace Environment

/-- No operators, functions or constants. -/
def empty : Environment := ⟨[], [], [], [], [], .standard⟩

/-- The built-in operators and functions and the standard constants. -/
def standard : Environment where
  unary := .ofEntries (UnaryOp.all.map fun op => (op.name, .builtin (.unary op)))
  binary := .ofEntries (BinaryOp.all.map fun op => (op.name, .builtin (.binary op)))
  ternary := .ofEntries (TernaryOp.all.map fun op => (op.name, .builtin (.ternary op)))
  functions := .ofEntries (StandardFunction.all.map fun f => (f.name, .builtin (.function f)))
  constants := .ofEntries standardConstants
  options := .standard

instance : Inhabited Environment := ⟨standard⟩

/-! ## Changes -/

/-- Replaces the options. -/
def withOptions (env : Environment) (o : Options) : Environment :=
  { env with options := o }

/-- Switches a capability or an operator. -/
def set (env : Environment) (name : String) (on : Bool) : Environment :=
  { env with options := env.options.set name on }

/-- Adds an operator with one operand. -/
def insertUnary (env : Environment) (name : String) (f : Function) : Environment :=
  { env with unary := Table.insert name f env.unary }

/-- Adds an operator with two operands. -/
def insertBinary (env : Environment) (name : String) (f : Function) : Environment :=
  { env with binary := Table.insert name f env.binary }

/-- Adds an operator with three operands. -/
def insertTernary (env : Environment) (name : String) (f : Function) : Environment :=
  { env with ternary := Table.insert name f env.ternary }

/-- Adds a function. -/
def insertFunction (env : Environment) (name : String) (f : Function) : Environment :=
  { env with functions := Table.insert name f env.functions }

/-- Adds a constant. -/
def insertConstant (env : Environment) (name : String) (l : Literal) : Environment :=
  { env with constants := Table.insert name l env.constants }

/-! ## Questions -/

/-- Is there a function of this name? -/
def isFunction (env : Environment) (name : String) : Bool :=
  Table.has name env.functions

/-- The operator with one operand, if it is switched on. -/
def enabledUnary? (env : Environment) (name : String) : Option Function :=
  if env.options.enables name then Table.lookup name env.unary else none

/-- The operator of a kind, whether or not it is switched on. -/
def operator? (env : Environment) (kind : OperatorKind) (name : String) : Option Function :=
  match kind with
  | .unary => Table.lookup name env.unary
  | .binary => Table.lookup name env.binary
  | .ternary => Table.lookup name env.ternary

/-- The value that a name stands for, given the variables of the caller. -/
def resolve? (env : Environment) (vars : Variables) (name : String) : Option Value :=
  match Table.lookup name env.functions with
  | some f => some (.function f)
  | none =>
    match env.enabledUnary? name with
    | some f => some (.function f)
    | none =>
      match vars name with
      | some v => some v
      | none => (Table.lookup name env.constants).map .ofLiteral

/-- The environment as a grammar. -/
def grammar (env : Environment) : Grammar where
  isUnary name := Table.has name env.unary
  isBinary name := Table.has name env.binary
  isTernary name := Table.has name env.ternary
  constant? name := Table.lookup name env.constants

end Environment

end Reckon
