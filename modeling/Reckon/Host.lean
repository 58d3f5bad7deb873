import Reckon.Builtin.Run

/-!
# Hosts

Functions run in a host, which has a state of its own: a source of randomness, a log, whatever its functions need. An
evaluation knows a host only by what it does when a function is run (`Host.run`), and it says whether an operator or a
call asked for that. The state survives errors.
-/

namespace Reckon

/-- What asks for a function to be run. -/
inductive Site
  /-- An operator. -/
  | operator
  /-- A call. -/
  | call
  deriving DecidableEq, Repr

/-- A computation in a host with state `σ`, which may fail. -/
abbrev Eval (σ : Type) := ExceptT EvalError (StateM σ)

/-- What runs functions. -/
structure Host (σ : Type) where
  /-- Runs a function on arguments that it takes. -/
  run : Site → Function → List Value → Eval σ Value

namespace Host

variable {σ : Type}

/-- Runs a function if it takes that many arguments. -/
def invoke (h : Host σ) (site : Site) (f : Function) (args : List Value) : Eval σ Value :=
  if f.arity.accepts args.length then h.run site f args
  else throw (.argumentCount f.arity args.length)

/-- Runs a built-in operation with a random number from `chance`. -/
def runBuiltin (chance : StateM σ Float) (b : Builtin) (args : List Value) : Eval σ Value :=
  match b with
  | .function .random => do
    let r ← (chance : Eval σ Float)
    liftExcept (b.run r args)
  | _ => liftExcept (b.run 0 args)
where
  /-- A result that does not touch the state. -/
  liftExcept : Except EvalError Value → Eval σ Value
    | .ok v => pure v
    | .error e => throw e

/-- The host in which built-in operations mean what they mean in the standard environment. -/
def withBuiltins (chance : StateM σ Float) (run : String → List Value → Eval σ Value) : Host σ where
  run _ f args :=
    match f with
    | .builtin b => runBuiltin chance b args
    | .host name _ => run name args

end Host

end Reckon
