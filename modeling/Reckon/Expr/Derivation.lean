import Reckon.Expr
import Reckon.Text.Alphabetic
import Reckon.Token

/-!
# Derivations

The grammar of formulas over the tokens of a code, and the derivations by it. A `Category` is what a sequence of tokens
can be; a `Derivation` of a category has one constructor for each rule, parentheses and unit rules included, so that it
knows the tokens it derives (`Derivation.tokens`). The expression it stands for has lost them (`Derivation.expr`).
-/

namespace Reckon

/-- The levels of binary operators that group from the left, the loosest first. -/
inductive Level
  | disjunction | conjunction | comparison | sum | product
  deriving DecidableEq, Repr

/-- What a sequence of tokens can be. -/
inductive Category
  /-- A whole expression, possibly a choice. -/
  | expression
  /-- Operands with operators of a level between them. -/
  | level (l : Level)
  /-- A power behind any number of prefix operators. -/
  | factor
  /-- An operand, possibly with an exponent. -/
  | power
  /-- An application with postfix operators behind it. -/
  | postfixed
  /-- A prefix operator with its operand in parentheses, or something that may be called. -/
  | application
  /-- A member with argument lists behind it. -/
  | callee
  /-- An atom with fields behind it. -/
  | fields
  /-- An operand without any operator. -/
  | atom
  /-- An expression in parentheses. -/
  | group
  deriving DecidableEq, Repr

namespace Level

/-- The operators of a level. -/
def operators : Level → List String
  | disjunction => ["or"]
  | conjunction => ["and"]
  | comparison => ["==", "!=", "<", "<=", ">=", ">", "in"]
  | sum => ["+", "-", "||"]
  | product => ["*", "/", "%"]

/-- How many levels are looser. -/
def depth : Level → Nat
  | disjunction => 0
  | conjunction => 1
  | comparison => 2
  | sum => 3
  | product => 4

/-- What the operands of a level are. -/
def operand : Level → Category
  | disjunction => .level conjunction
  | conjunction => .level comparison
  | comparison => .level sum
  | sum => .level product
  | product => .factor

end Level

/-- The token of a field name: a name, or an operator that is a word. -/
inductive FieldToken
  | name (n : String)
  | operator (op : String)
  deriving DecidableEq

namespace FieldToken

/-- The token. -/
def kind : FieldToken → TokenKind
  | name n => .name n
  | operator op => .operator op

/-- The name of the field. -/
def text : FieldToken → String
  | name n => n
  | operator op => op

/-- Is this a word? Symbolic operators do not start with a letter. -/
def isWord : FieldToken → Bool
  | name _ => true
  | operator op => (op.toList.head?.map Text.isAlphabetic).getD false

end FieldToken

mutual

/-- A derivation of a category. -/
inductive Derivation : Category → Type
  /-- A disjunction. -/
  | simple (x : Derivation (.level .disjunction)) : Derivation .expression
  /-- A disjunction, `?`, an expression, `:` and an expression. -/
  | choice (c : Derivation (.level .disjunction)) (x y : Derivation .expression) : Derivation .expression
  /-- An operand of the level. -/
  | operand {l : Level} (x : Derivation l.operand) : Derivation (.level l)
  /-- Operands, an operator of the level, and one more operand. -/
  | binary {l : Level} (x : Derivation (.level l)) (op : String) (y : Derivation l.operand) : Derivation (.level l)
  /-- A power. -/
  | unsigned (x : Derivation .power) : Derivation .factor
  /-- A prefix operator and a factor. -/
  | signed (op : String) (x : Derivation .factor) : Derivation .factor
  /-- An operand without an exponent. -/
  | base (x : Derivation .postfixed) : Derivation .power
  /-- An operand, `^` and a factor. -/
  | power (x : Derivation .postfixed) (y : Derivation .factor) : Derivation .power
  /-- An application. -/
  | applied (x : Derivation .application) : Derivation .postfixed
  /-- An operand and `!`. -/
  | factorial (x : Derivation .postfixed) : Derivation .postfixed
  /-- A prefix operator and an operand in parentheses. -/
  | operation (op : String) (x : Derivation .group) : Derivation .application
  /-- Something that may be called. -/
  | called (x : Derivation .callee) : Derivation .application
  /-- Something that is not called yet. -/
  | uncalled (x : Derivation .fields) : Derivation .callee
  /-- A call without arguments. -/
  | invocation (f : Derivation .callee) : Derivation .callee
  /-- A call with arguments. -/
  | call (f : Derivation .callee) (args : Arguments) : Derivation .callee
  /-- An atom. -/
  | whole (x : Derivation .atom) : Derivation .fields
  /-- A member, `.` and the name of a field. -/
  | member (x : Derivation .fields) (field : FieldToken) : Derivation .fields
  /-- A name. -/
  | name (n : String) : Derivation .atom
  /-- A number. -/
  | number (v : Float) : Derivation .atom
  /-- A string. -/
  | string (s : String) : Derivation .atom
  /-- An expression in parentheses. -/
  | inner (x : Derivation .group) : Derivation .atom
  /-- `(`, an expression and `)`. -/
  | group (x : Derivation .expression) : Derivation .group

/-- The arguments of a call, with commas between them. -/
inductive Arguments : Type
  /-- The last argument. -/
  | last (x : Derivation .expression) : Arguments
  /-- An argument and more of them. -/
  | more (x : Derivation .expression) (rest : Arguments) : Arguments

end

mutual

/-- The tokens that a derivation derives. -/
def Derivation.tokens : {c : Category} → Derivation c → List TokenKind
  | _, .simple x => x.tokens
  | _, .choice c x y => c.tokens ++ .operator "?" :: x.tokens ++ .operator ":" :: y.tokens
  | _, .operand x => x.tokens
  | _, .binary x op y => x.tokens ++ .operator op :: y.tokens
  | _, .unsigned x => x.tokens
  | _, .signed op x => .operator op :: x.tokens
  | _, .base x => x.tokens
  | _, .power x y => x.tokens ++ .operator "^" :: y.tokens
  | _, .applied x => x.tokens
  | _, .factorial x => x.tokens ++ [.operator "!"]
  | _, .operation op x => .operator op :: x.tokens
  | _, .called x => x.tokens
  | _, .uncalled x => x.tokens
  | _, .invocation f => f.tokens ++ [.leftParen, .rightParen]
  | _, .call f args => f.tokens ++ .leftParen :: args.tokens ++ [.rightParen]
  | _, .whole x => x.tokens
  | _, .member x field => x.tokens ++ [.operator ".", field.kind]
  | _, .name n => [.name n]
  | _, .number v => [.number v]
  | _, .string s => [.string s]
  | _, .inner x => x.tokens
  | _, .group x => .leftParen :: x.tokens ++ [.rightParen]

/-- The tokens of arguments and the commas between them. -/
def Arguments.tokens : Arguments → List TokenKind
  | .last x => x.tokens
  | .more x rest => x.tokens ++ .comma :: rest.tokens

end

mutual

/-- The expression that a derivation stands for. -/
def Derivation.expr : {c : Category} → Derivation c → Expr
  | _, .simple x => x.expr
  | _, .choice c x y => .choice c.expr x.expr y.expr
  | _, .operand x => x.expr
  | _, .binary x op y => .binary op x.expr y.expr
  | _, .unsigned x => x.expr
  | _, .signed op x => .unary op x.expr
  | _, .base x => x.expr
  | _, .power x y => .binary "^" x.expr y.expr
  | _, .applied x => x.expr
  | _, .factorial x => .unary "!" x.expr
  | _, .operation op x => .unary op x.expr
  | _, .called x => x.expr
  | _, .uncalled x => x.expr
  | _, .invocation f => .call f.expr []
  | _, .call f args => .call f.expr args.exprs
  | _, .whole x => x.expr
  | _, .member x field => .member x.expr field.text
  | _, .name n => .name n
  | _, .number v => .number v
  | _, .string s => .string s
  | _, .inner x => x.expr
  | _, .group x => x.expr

/-- The expressions of arguments. -/
def Arguments.exprs : Arguments → List Expr
  | .last x => [x.expr]
  | .more x rest => x.expr :: rest.exprs

end

end Reckon
