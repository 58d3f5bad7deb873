import Reckon.Formula

/-!
# Compiled functions

A formula becomes a function of some of its variables: it is simplified with what the others are bound to, written as a
code and read again. Bound values that a code cannot hold are kept as captures; the arguments come before them.
-/

namespace Reckon

variable {σ : Type}

/-- A function of positional arguments. -/
structure CompiledFunction where
  /-- The names of the parameters. -/
  params : List String
  /-- The code of the body. -/
  code : String
  /-- The body, read from that code. -/
  body : Formula
  /-- The bound values that the body refers to. -/
  captures : Bindings

/-- The bound values that a simplified formula still refers to, the parameters apart. -/
def Formula.captures (simplified : Formula) (params : List String) (bindings : Variables) : Bindings :=
  .ofEntries <| ((simplified.freeVariables false).filter fun name => !params.contains name).filterMap fun name =>
    (bindings name).map fun v => (name, v)

/-- Compiles a formula into a function of `params`. -/
def Formula.compile (host : Host σ) (f : Formula) (params : List String) (bindings : Variables) :
    StateM σ (Except ParseError CompiledFunction) := do
  let simplified ← f.simplify host bindings
  let code := simplified.render
  return (Formula.parseWith f.env f.options code).map fun body =>
    ⟨params, code, body, simplified.captures params bindings⟩

namespace CompiledFunction

/-- The variables of a call: the captures, and the arguments under the names of the parameters. -/
def bind (f : CompiledFunction) (args : List Value) : Bindings :=
  Table.insertAll f.captures (f.params.zip args)

/-- Calls the function with as many arguments as it has parameters. -/
def call (host : Host σ) (f : CompiledFunction) (args : List Value) : Eval σ Value :=
  if args.length = f.params.length then f.body.evaluate host (f.bind args).toVariables
  else throw (.argumentCount (.exact f.params.length) args.length)

end CompiledFunction

end Reckon
