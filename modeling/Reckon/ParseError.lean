import Reckon.Token

/-!
# Errors in a code

Why a code cannot be read, and the part of it that is to blame. `ParseError.Cause.isLexical` tells the causes that
concern a single token from those that concern their order.
-/

namespace Reckon

/-- What has to come next. -/
inductive Expected
  | rightParen
  | commaOrRightParen
  | colon
  | fieldName
  | finish
  deriving DecidableEq, Repr

/-- How a message names what has to come next. -/
def Expected.describe : Expected → String
  | rightParen => "`)`"
  | commaOrRightParen => "`,` or `)`"
  | colon => "`:`"
  | fieldName => "field name"
  | finish => "end of input"

namespace ParseError

/-- Why a code cannot be read. -/
inductive Cause
  /-- No token starts with this character. -/
  | unknownChar (c : Char)
  /-- A string without its closing quote. -/
  | unterminatedString
  /-- A backslash in front of a character that opens no escape. -/
  | invalidEscape (c : Char)
  /-- An escape of a UTF-16 unit with the characters that stand where four hexadecimal digits have to. -/
  | invalidUnicodeEscape (hex : String)
  /-- Something else has to come next. -/
  | expected (what : Expected)
  /-- A token that cannot start an operand. -/
  | unexpectedToken (token : TokenKind)
  /-- The code ends where an operand has to start. -/
  | unexpectedEnd
  /-- Fields must not be accessed. -/
  | memberAccessDisabled
  deriving DecidableEq

/-- Does the cause concern a single token? -/
def Cause.isLexical : Cause → Bool
  | unknownChar _ | unterminatedString | invalidEscape _ | invalidUnicodeEscape _ => true
  | _ => false

/-- The text of a cause. -/
def Cause.message : Cause → String
  | unknownChar c => "Unknown character `" ++ Text.visibleText c ++ "`"
  | unterminatedString => "Unterminated string literal"
  | invalidEscape c => "Illegal escape sequence: `\\" ++ Text.visibleText c ++ "`"
  | invalidUnicodeEscape hex => "Illegal escape sequence: `\\u" ++ hex ++ "`"
  | expected what => "Expected " ++ what.describe
  | unexpectedToken t => "Unexpected " ++ t.describe
  | unexpectedEnd => "Unexpected end of input"
  | memberAccessDisabled => "Unexpected `.`, member access is not permitted"

end ParseError

/-- A cause and the part of the code that is to blame. -/
structure ParseError where
  /-- Why the code cannot be read. -/
  cause : ParseError.Cause
  /-- Where the part starts. -/
  location : Location
  /-- The part. -/
  text : List Char
  deriving DecidableEq

namespace ParseError

/-- The error that blames a token. -/
def blaming (t : Token) (cause : Cause) : ParseError :=
  ⟨cause, t.location, t.text⟩

/-- The byte offsets at which the part starts and ends. -/
def range (e : ParseError) : Nat × Nat :=
  (e.location.offset, e.location.offset + utf8Length e.text)

/-- The text of an error with its place. -/
def message (e : ParseError) : String :=
  toString e.location.line ++ ":" ++ toString e.location.column ++ ": " ++ e.cause.message

end ParseError

end Reckon
