import Reckon.Host

/-!
# A host for trials

Functions to try formulas with: some fail, some return functions or records, `trace` keeps a log and `tick` counts. The
built-in operations are there a second time under names such as `unary:sin` and `fn:max`, as functions of the host.
-/

namespace Reckon

/-- A function of the host for trials. -/
inductive TrialFunction
  | double | identity | crash | sum | join | pick | subtract | pair | void | getDouble | clamp | apply | checkedSqrt
  | trace | tick
  deriving DecidableEq, Repr

/-- The state of the host for trials. -/
structure TrialState where
  /-- What was traced. -/
  log : List String
  /-- How often `tick` was called. -/
  ticks : Nat
  deriving DecidableEq, Repr

namespace TrialFunction

/-- All of them. -/
def all : List TrialFunction :=
  [double, identity, crash, sum, join, pick, subtract, pair, void, getDouble, clamp, apply, checkedSqrt, trace, tick]

/-- The name of the function. -/
def name : TrialFunction → String
  | double => "double"
  | identity => "id"
  | crash => "crash"
  | sum => "sum"
  | join => "join"
  | pick => "pick"
  | subtract => "sub"
  | pair => "pair"
  | void => "void"
  | getDouble => "get_double"
  | clamp => "clamp"
  | apply => "apply"
  | checkedSqrt => "checked_sqrt"
  | trace => "trace"
  | tick => "tick"

/-- The arguments that the function takes. -/
def arity : TrialFunction → Arity
  | double | identity | checkedSqrt => .exact 1
  | crash | join | trace => .any
  | sum => .atLeast 1
  | pick => .range 1 2
  | subtract | pair | apply => .exact 2
  | void | getDouble | tick => .exact 0
  | clamp => .exact 3

/-- The function as a value. -/
def toFunction (f : TrialFunction) : Function :=
  .host f.name f.arity

end TrialFunction

namespace Trial

/-- Nothing traced and nothing counted. -/
def start : TrialState := ⟨[], 0⟩

/-- The built-in operations by their names in this host. -/
def builtins : List (String × Builtin) :=
  UnaryOp.all.map (fun op => ("unary:" ++ op.name, .unary op)) ++
  BinaryOp.all.map (fun op => ("binary:" ++ op.name, .binary op)) ++
  TernaryOp.all.map (fun op => ("ternary:" ++ op.name, .ternary op)) ++
  StandardFunction.all.map (fun f => ("fn:" ++ f.name, .function f))

/-- The function of the host with this name. -/
def function? (name : String) : Option Function :=
  match TrialFunction.all.find? fun f => f.name = name with
  | some f => some f.toFunction
  | none => (builtins.lookup name).map fun b => .host name b.arity

/-- The texts of values, separated by commas. -/
def texts (args : List Value) : String :=
  ",".intercalate (args.map Value.text)

/-- Numbers here are always the same. -/
def noChance : StateM TrialState Float := pure 0.5

/-- What a function of the host does, given how functions are called. -/
def perform (invoke : Function → List Value → Eval TrialState Value) (f : TrialFunction) (args : List Value) :
    Eval TrialState Value :=
  match f, args with
  | .double, [x] => pure (.number (x.toNumber * 2))
  | .identity, [x] => pure x
  | .crash, xs => throw (.native ("crashed(" ++ texts xs ++ ")"))
  | .sum, xs => pure (.number (xs.foldl (fun acc x => acc + x.toNumber) 0))
  | .join, xs => pure (.string (texts xs))
  | .pick, xs => pure (xs.getLast?.getD .void)
  | .subtract, [x, y] => pure (.number (x.toNumber - y.toNumber))
  | .pair, [x, y] => pure (.record [("a", x), ("b", y)])
  | .void, [] => pure .void
  | .getDouble, [] => pure (.function TrialFunction.double.toFunction)
  | .clamp, [x, low, high] =>
    let v := x.toNumber
    pure (.number (if v < low.toNumber then low.toNumber else if high.toNumber < v then high.toNumber else v))
  | .apply, [.function g, x] => invoke g [x]
  | .apply, _ => throw (.native "expected function")
  | .checkedSqrt, [x] =>
    let v := x.toNumber
    if v < 0 then throw (.native ("negative argument: " ++ Numeral.write v)) else pure (.number v.sqrt)
  | .trace, xs => do
    modify fun s => { s with log := s.log ++ [texts xs] }
    return xs.head?.getD .void
  | .tick, [] => do
    let s ← get
    set { s with ticks := s.ticks + 1 }
    return .number (Float.ofNat (s.ticks + 1))
  | f, xs => throw (.argumentCount f.arity xs.length)

/-- Runs a function of the host by its name, given how functions are called. -/
def runNamed (invoke : Function → List Value → Eval TrialState Value) (name : String) (args : List Value) :
    Eval TrialState Value :=
  match TrialFunction.all.find? fun f => f.name = name with
  | some f => perform invoke f args
  | none =>
    match builtins.lookup name with
    | some b => Host.runBuiltin noChance b args
    | none => throw (.native ("no function " ++ name))

/-- The host in which `apply` calls nothing. A call within `apply` has one argument and so never reaches a second
`apply`, which takes two. -/
def flatHost : Host TrialState :=
  .withBuiltins noChance (runNamed fun _ _ => throw (.native "expected function"))

/-- The host for trials. -/
def host : Host TrialState :=
  .withBuiltins noChance (runNamed (flatHost.invoke .call))

end Trial

end Reckon
