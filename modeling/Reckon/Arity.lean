/-!
# Arities

How many arguments a function takes.
-/

namespace Reckon

/-- The numbers of arguments from `min` on, up to `max` if there is a greatest one. -/
structure Arity where
  /-- The least number. -/
  min : Nat
  /-- The greatest number, if there is one. -/
  max : Option Nat
  deriving DecidableEq, Repr

namespace Arity

/-- Exactly `n` arguments. -/
def exact (n : Nat) : Arity := ⟨n, some n⟩

/-- `n` arguments or more. -/
def atLeast (n : Nat) : Arity := ⟨n, none⟩

/-- From `m` to `n` arguments. -/
def range (m n : Nat) : Arity := ⟨m, some n⟩

/-- Any number of arguments. -/
def any : Arity := atLeast 0

/-- May a call have `n` arguments? -/
def accepts (a : Arity) (n : Nat) : Bool :=
  a.min ≤ n && (match a.max with
    | some m => n ≤ m
    | none => true)

/-- How a message names an arity. -/
def describe (a : Arity) : String :=
  match a.max with
  | some n => if n = a.min then toString n else toString a.min ++ "..=" ++ toString n
  | none => "at least " ++ toString a.min

end Arity

end Reckon
