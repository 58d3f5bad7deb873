import Reckon.Builtin
import Reckon.Literal
import Reckon.Number.Numeral
import Reckon.Table
import Reckon.Text.Blank

/-!
# Values

What expressions evaluate to. There are no truth values: `1` and `0` stand for them. A function is a name for
something that can be called; two functions are equal if they are the same one.
-/

namespace Reckon

/-- Something that can be called. -/
inductive Function
  /-- An operation of the standard environment. -/
  | builtin (b : Builtin)
  /-- A function of the host, known by its name. -/
  | host (name : String) (arity : Arity)
  deriving DecidableEq, Repr

/-- The arguments that a function takes. -/
def Function.arity : Function → Arity
  | builtin b => b.arity
  | host _ a => a

/-- A value. -/
inductive Value
  /-- A number. -/
  | number (value : Float)
  /-- A string. -/
  | string (value : String)
  /-- A function. -/
  | function (f : Function)
  /-- Named fields, in ascending order of their names. -/
  | record (fields : List (String × Value))
  /-- Nothing, such as a field that is not there. -/
  | void

namespace Value

instance : Inhabited Value := ⟨void⟩

/-- The value of a literal. -/
def ofLiteral : Literal → Value
  | .number v => number v
  | .string s => string s

/-- The literal of a value, if it has one. -/
def literal? : Value → Option Literal
  | number v => some (.number v)
  | string s => some (.string s)
  | _ => none

@[simp] theorem literal?_ofLiteral (l : Literal) : (ofLiteral l).literal? = some l := by
  cases l <;> rfl

/-- The number that stands for a truth value. -/
def ofBool (b : Bool) : Value :=
  number (if b then 1 else 0)

/-- The name of the kind of a value. -/
def kind : Value → String
  | number _ => "number"
  | string _ => "string"
  | function _ => "function"
  | record _ => "record"
  | void => "void"

/-- The number that a string stands for: white space around it does not count, and only digits or `Infinity` may
follow the sign. -/
def readNumber (s : String) : Float :=
  let cs := Text.trim s.toList
  let (negative, unsigned) := Numeral.splitSign cs
  if unsigned = "Infinity".toList then if negative then -1 / 0 else 1 / 0
  else
    match unsigned with
    | c :: _ => if Numeral.isDigit c || c = '.' then (Numeral.parse cs).getD (0 / 0) else 0 / 0
    | [] => 0 / 0

/-- A value as a number; NaN if it is none. -/
def toNumber : Value → Float
  | number v => v
  | string s => readNumber s
  | _ => 0 / 0

/-- Does a value count as true? -/
def isTruthy : Value → Bool
  | number v => !(v == 0) && !v.isNaN
  | string s => !s.isEmpty
  | function _ | record _ => true
  | void => false

/-- The field of a value, or nothing. -/
def field (name : String) : Value → Value
  | record fields => (Table.lookup name fields).getD void
  | _ => void

/-- A number as part of a text: zero has no sign, and infinity is spelled out. -/
def numberText (v : Float) : String :=
  if v.isInf then if v < 0 then "-Infinity" else "Infinity"
  else if v == 0 then "0"
  else Numeral.write v

mutual

/-- A value as part of a text. -/
def text : Value → String
  | number v => numberText v
  | string s => s
  | function f => "[function/" ++ f.arity.describe ++ "]"
  | record fields => "\x7b" ++ ", ".intercalate (fieldTexts fields) ++ "\x7d"
  | void => "void"

/-- The fields of a record as parts of a text. -/
def fieldTexts : List (String × Value) → List String
  | [] => []
  | (name, v) :: rest => (name ++ ": " ++ text v) :: fieldTexts rest

end

mutual

/-- Are two values equal? NaN differs from itself, and zeros are equal. -/
def equal : Value → Value → Bool
  | number a, number b => a == b
  | string a, string b => a == b
  | function f, function g => decide (f = g)
  | record a, record b => equalFields a b
  | void, void => true
  | _, _ => false

/-- Are two lists of fields equal? -/
def equalFields : List (String × Value) → List (String × Value) → Bool
  | [], [] => true
  | (m, a) :: as, (n, b) :: bs => m == n && equal a b && equalFields as bs
  | _, _ => false

end

instance : BEq Value := ⟨equal⟩

end Value

/-- What the caller knows of variables. -/
abbrev Variables := String → Option Value

/-- Values under names. -/
abbrev Bindings := Table Value

/-- The variables that bindings give. -/
def Bindings.toVariables (b : Bindings) : Variables :=
  fun name => Table.lookup name b

end Reckon
