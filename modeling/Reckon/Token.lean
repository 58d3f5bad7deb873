import Reckon.Literal
import Reckon.Location
import Reckon.Number.Numeral
import Reckon.Text.Quoted

/-!
# Tokens

The words of a code. A token keeps the text it was read from and the place of that text.
-/

namespace Reckon

/-- What a token is. -/
inductive TokenKind
  /-- The end of the code. -/
  | finish
  /-- An operator, symbolic or a word. -/
  | operator (op : String)
  /-- A number or a numeric constant. -/
  | number (value : Float)
  /-- A string or a string constant. -/
  | string (value : String)
  | leftParen
  | rightParen
  | comma
  /-- Any other word. -/
  | name (name : String)
  deriving DecidableEq

namespace TokenKind

/-- How a message names a token. -/
def describe : TokenKind → String
  | finish => "end of input"
  | operator op => "operator `" ++ op ++ "`"
  | number v => "number " ++ Numeral.write v
  | string s => "string " ++ String.ofList (Text.Quoted.encode s.toList)
  | leftParen => "`(`"
  | rightParen => "`)`"
  | comma => "`,`"
  | name n => "name `" ++ n ++ "`"

/-- The token of a constant. -/
def ofLiteral : Literal → TokenKind
  | .number v => number v
  | .string s => string s

end TokenKind

/-- A token in its place. -/
structure Token where
  /-- What it is. -/
  kind : TokenKind
  /-- Where its text starts. -/
  location : Location
  /-- The text that it was read from. -/
  text : List Char
  deriving DecidableEq

end Reckon
