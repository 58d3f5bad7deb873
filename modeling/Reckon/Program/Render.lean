import Reckon.Number.Numeral
import Reckon.Program
import Reckon.Text.Quoted

/-!
# Writing programs as formulas

A program is written by running it on a stack of texts. Each text has the priority of its outermost operation; an
operation that asks for more puts the text in parentheses (`Rendered.atLeast`). A program that takes more than there is
on the stack gets empty texts, and one that leaves more than one text has them separated by commas.
-/

namespace Reckon

/-- The priority of an operation, from the loosest to the tightest. -/
inductive Priority
  | conditional | disjunction | conjunction | comparison | sum | product | sign | power | factorial | call | member
  | atom
  deriving DecidableEq, Repr

namespace Priority

/-- The place of a priority in the order. -/
def rank : Priority → Nat
  | conditional => 0
  | disjunction => 1
  | conjunction => 2
  | comparison => 3
  | sum => 4
  | product => 5
  | sign => 6
  | power => 7
  | factorial => 8
  | call => 9
  | member => 10
  | atom => 11

/-- The priority of a binary operator and the least priorities of its operands. -/
def ofBinary (op : String) : Priority × Priority × Priority :=
  if op = "^" then (power, factorial, sign)
  else if ["*", "/", "%"].contains op then (product, product, sign)
  else if ["+", "-", "||"].contains op then (sum, sum, product)
  else if op = "and" then (conjunction, conjunction, comparison)
  else if op = "or" then (disjunction, disjunction, conjunction)
  else (comparison, comparison, sum)

end Priority

/-- A formula with its priority. -/
structure Rendered where
  /-- The text. -/
  text : List Char
  /-- The priority of the outermost operation. -/
  priority : Priority
  /-- Is it an unsigned numeral? A dot behind one would be taken for a decimal point. -/
  isNumeral : Bool := false
  deriving DecidableEq, Repr

namespace Rendered

/-- The text in parentheses. -/
def parenthesize (cs : List Char) : List Char :=
  '(' :: cs ++ [')']

/-- The text, in parentheses if the priority is too low. -/
def atLeast (p : Priority) (r : Rendered) : List Char :=
  if r.priority.rank < p.rank then parenthesize r.text else r.text

/-- A number. NaN is a quotient, and infinity a numeral too great for a double. -/
def ofNumber (v : Float) : Rendered :=
  if v.isNaN then ⟨"(0/0)".toList, .atom, false⟩
  else
    let negative := isNegative v
    let digits := if v.isInf then Numeral.sign negative ++ "1e999".toList else (Numeral.write v).toList
    if negative then ⟨digits, .sign, false⟩ else ⟨digits, .atom, true⟩

/-- An operator with one operand. -/
def unary (op : String) (x : Rendered) : Rendered :=
  if op = "-" ∨ op = "+" then ⟨op.toList ++ x.atLeast .sign, .sign, false⟩
  else if op = "!" then ⟨x.atLeast .factorial ++ ['!'], .factorial, false⟩
  else ⟨op.toList ++ parenthesize x.text, .factorial, false⟩

/-- An operator between two operands. -/
def binary (op : String) (x y : Rendered) : Rendered :=
  let (priority, left, right) := Priority.ofBinary op
  ⟨x.atLeast left ++ ' ' :: op.toList ++ ' ' :: y.atLeast right, priority, false⟩

/-- Texts with commas between them. -/
def list (xs : List Rendered) : List Char :=
  [',', ' '].intercalate (xs.map text)

/-- An operator with three operands. -/
def ternary (op : String) (x y z : Rendered) : Rendered :=
  if op = "?" then
    ⟨x.atLeast .disjunction ++ [' ', '?', ' '] ++ y.text ++ [' ', ':', ' '] ++ z.text, .conditional, false⟩
  else ⟨op.toList ++ parenthesize (list [x, y, z]), .call, false⟩

/-- A call. -/
def call (f : Rendered) (args : List Rendered) : Rendered :=
  ⟨f.atLeast .call ++ parenthesize (list args), .call, false⟩

/-- A field. -/
def member (x : Rendered) (field : String) : Rendered :=
  let base := if x.isNumeral then parenthesize x.text else x.atLeast .member
  ⟨base ++ '.' :: field.toList, .member, false⟩

/-- What stands for an operand that is not there. -/
def missing : Rendered :=
  ⟨[], .atom, false⟩

/-- The topmost text, and the others. -/
def pop : List Rendered → Rendered × List Rendered
  | [] => (missing, [])
  | x :: rest => (x, rest)

/-- What a program has written, given the stack that it leaves. -/
def ofStack : List Rendered → Rendered
  | [] => missing
  | [x] => x
  | xs => ⟨list xs.reverse, .conditional, false⟩

end Rendered

namespace Program

mutual

/-- One step on the stack of texts, the topmost one first. -/
def renderStep (stack : List Rendered) : Instruction → List Rendered
  | .number v => .ofNumber v :: stack
  | .string s => ⟨Text.Quoted.encode s.toList, .atom, false⟩ :: stack
  | .load name => ⟨name.toList, .atom, false⟩ :: stack
  | .unary op =>
    let (x, stack) := Rendered.pop stack
    Rendered.unary op x :: stack
  | .binary op =>
    let (y, stack) := Rendered.pop stack
    let (x, stack) := Rendered.pop stack
    Rendered.binary op x y :: stack
  | .ternary op =>
    let (z, stack) := Rendered.pop stack
    let (y, stack) := Rendered.pop stack
    let (x, stack) := Rendered.pop stack
    Rendered.ternary op x y z :: stack
  | .call argCount =>
    let args := (stack.take argCount).reverse
    let (f, stack) := Rendered.pop (stack.drop argCount)
    f.call args :: stack
  | .member field =>
    let (x, stack) := Rendered.pop stack
    x.member field :: stack
  | .suspend body => .ofStack (renderOn [] body) :: stack

/-- A program on the stack of texts. -/
def renderOn (stack : List Rendered) : List Instruction → List Rendered
  | [] => stack
  | i :: rest => renderOn (renderStep stack i) rest

end

theorem renderOn_append (stack : List Rendered) (p q : Program) :
    renderOn stack (p ++ q) = renderOn (renderOn stack p) q := by
  induction p generalizing stack with
  | nil => simp [renderOn]
  | cons i p ih => simp [renderOn, ih]

/-- The formula of a program. -/
def render (p : Program) : String :=
  String.ofList (Rendered.ofStack (renderOn [] p)).text

end Program

end Reckon
