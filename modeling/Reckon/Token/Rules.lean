import Reckon.Grammar
import Reckon.Options
import Reckon.ParseError
import Reckon.Text.Alphabetic

/-!
# Token rules

A rule says how many characters at the start of a text make up a token, and which token that is (`Lexeme`). `gapLength`
measures the blanks and comments between tokens. `recognise` tries the rules one after the other; only a string can be
wrong in itself, and then no other rule is tried.
-/

namespace Reckon

/-- A token at the start of a text, with the number of its characters. -/
structure Lexeme where
  /-- How many characters. -/
  length : Nat
  /-- Which token. -/
  kind : TokenKind
  length_pos : 0 < length

namespace Lexeme

/-- The lexeme of `n` characters, if there are any. -/
def ofLength? (n : Nat) (kind : TokenKind) : Option Lexeme :=
  if h : 0 < n then some ⟨n, kind, h⟩ else none

/-! ## Gaps -/

/-- A character that only separates tokens. -/
def isBlank (c : Char) : Bool :=
  c = ' ' || c = '\t' || c = '\n' || c = '\r'

/-- Where in a gap a character stands. -/
inductive GapState
  /-- Between tokens. -/
  | outside
  /-- On the asterisk that opens a comment. -/
  | opening
  /-- In a comment. -/
  | inside
  /-- In a comment, behind an asterisk that may close it. -/
  | closing
  deriving DecidableEq

/-- The length of the blanks and comments at the start of a text. A comment that is not closed runs to the end. -/
def gapLength : GapState → List Char → Nat
  | _, [] => 0
  | .outside, c :: rest =>
    if isBlank c then 1 + gapLength .outside rest
    else if c = '/' ∧ rest.head? = some '*' then 1 + gapLength .opening rest
    else 0
  | .opening, _ :: rest => 1 + gapLength .inside rest
  | .inside, c :: rest => 1 + gapLength (if c = '*' then .closing else .inside) rest
  | .closing, c :: rest =>
    1 + gapLength (if c = '/' then .outside else if c = '*' then .closing else .inside) rest

/-! ## Numbers -/

/-- The number that digits in a base stand for, summed up in doubles from the first digit on. -/
def radixValue (base : Nat) (ds : List Char) : Float :=
  ds.foldl (fun x c => x * Float.ofNat base + Float.ofNat (Numeral.digitValue c)) 0

/-- An integer in base 16 or 2 behind `0x` or `0b`. -/
def radixInteger? : List Char → Option Lexeme
  | '0' :: mark :: rest =>
    let hex := rest.takeWhile Text.Quoted.isHexDigit
    let binary := rest.takeWhile fun c => c = '0' || c = '1'
    if mark = 'x' ∧ hex ≠ [] then ofLength? (2 + hex.length) (.number (radixValue 16 hex))
    else if mark = 'b' ∧ binary ≠ [] then ofLength? (2 + binary.length) (.number (radixValue 2 binary))
    else none
  | _ => none

/-- A decimal number: the longest numeral there is. -/
def decimalNumber? (cs : List Char) : Option Lexeme :=
  let n := Numeral.length cs
  ofLength? n (.number ((Numeral.decimal (cs.take n)).toFloat false))

/-! ## Operators and marks -/

/-- The symbolic operators of two characters. -/
def pairSymbols : List (Char × Char) :=
  [('<', '='), ('>', '='), ('=', '='), ('!', '='), ('|', '|')]

/-- The symbolic operators of one character. -/
def singleSymbols : List Char :=
  ['+', '-', '*', '/', '%', '^', '?', ':', '.', '<', '>', '!']

/-- The length and the text of the symbolic operator at the start of a text, the longer one if there are two. Dots
for multiplication are asterisks. -/
def symbol? : List Char → Option (Nat × String)
  | [] => none
  | c :: rest =>
    match rest.head?.filter fun d => pairSymbols.contains (c, d) with
    | some d => some (2, String.ofList [c, d])
    | none =>
      if singleSymbols.contains c then some (1, String.ofList [c])
      else if c = '∙' ∨ c = '•' then some (1, "*")
      else none

/-- A symbolic operator that is switched on. -/
def symbolOperator? (o : Options) (cs : List Char) : Option Lexeme :=
  match symbol? cs with
  | some (n, op) => if o.enables op then ofLength? n (.operator op) else none
  | none => none

/-- Parentheses and the comma. -/
def mark? : List Char → Option Lexeme
  | '(' :: _ => ofLength? 1 .leftParen
  | ')' :: _ => ofLength? 1 .rightParen
  | ',' :: _ => ofLength? 1 .comma
  | _ => none

/-! ## Words -/

/-- A character of a word behind its first letter. -/
def isWordChar (dots : Bool) (c : Char) : Bool :=
  Text.isAlphabetic c || Numeral.isDigit c || c = '_' || dots && c = '.'

/-- The length of the word at the start of a text: a letter, then letters, digits, underscores and, if asked for,
dots. -/
def wordLength (dots : Bool) : List Char → Nat
  | [] => 0
  | c :: rest => if Text.isAlphabetic c then 1 + (rest.takeWhile (isWordChar dots)).length else 0

/-- The length of the name at the start of a text: a word that one `$` or `_` may precede. -/
def nameLength : List Char → Nat
  | [] => 0
  | c :: rest =>
    if c = '$' ∨ c = '_' then
      let n := wordLength false rest
      if n = 0 then 0 else 1 + n
    else wordLength false (c :: rest)

/-- A word that is an operator of the grammar and switched on. -/
def wordOperator? (g : Grammar) (o : Options) (cs : List Char) : Option Lexeme :=
  let n := wordLength false cs
  let op := String.ofList (cs.take n)
  if g.isOperator op && o.enables op then ofLength? n (.operator op) else none

/-- A word, possibly with dots, that is a constant of the grammar. -/
def constant? (g : Grammar) (cs : List Char) : Option Lexeme :=
  let n := wordLength true cs
  match g.constant? (String.ofList (cs.take n)) with
  | some l => ofLength? n (.ofLiteral l)
  | none => none

/-- Any other word. -/
def name? (cs : List Char) : Option Lexeme :=
  let n := nameLength cs
  ofLength? n (.name (String.ofList (cs.take n)))

/-! ## Strings -/

/-- A token that is wrong in itself: the part of the text to blame, in characters, and why. -/
structure Fault where
  /-- Characters in front of the part. -/
  skipped : Nat
  /-- Characters of the part. -/
  count : Nat
  /-- What is wrong. -/
  cause : ParseError.Cause
  deriving DecidableEq

/-- The fault of a refused escape, behind the opening quote. -/
def Fault.ofBadEscape (e : Text.Quoted.BadEscape) : Fault :=
  match e.defect with
  | .unknown c => ⟨1 + e.skipped, 2, .invalidEscape c⟩
  | .unicode hex => ⟨1 + e.skipped, 2 + hex.length, .invalidUnicodeEscape (String.ofList hex)⟩

/-- A string behind the opening `quote`: its body, and the same quote again. -/
def quoted (quote : Char) (rest : List Char) : Except Fault Lexeme :=
  let n := Text.Quoted.bodyLength quote rest
  if (rest.drop n).head? = some quote then
    match Text.Quoted.decode (rest.take n) with
    | .ok cs => .ok ⟨n + 2, .string (String.ofList cs), Nat.succ_pos _⟩
    | .error e => .error (.ofBadEscape e)
  else .error ⟨0, 1 + rest.length, .unterminatedString⟩

/-! ## All rules -/

/-- The rules other than the one for strings, the first one that applies. -/
def plain? (g : Grammar) (o : Options) (cs : List Char) : Option Lexeme :=
  radixInteger? cs <|> decimalNumber? cs <|> symbolOperator? o cs <|> mark? cs <|> wordOperator? g o cs <|>
    constant? g cs <|> name? cs

/-- The token at the start of a text. -/
def recognise (g : Grammar) (o : Options) (cs : List Char) : Except Fault Lexeme :=
  match cs with
  | [] => .error ⟨0, 0, .unexpectedEnd⟩
  | c :: rest =>
    if c = '"' ∨ c = '\'' then quoted c rest
    else
      match plain? g o (c :: rest) with
      | some l => .ok l
      | none => .error ⟨0, 1, .unknownChar c⟩

end Lexeme

/-- Can this text be the name of a variable? -/
def isValidName (name : String) : Bool :=
  let cs := name.toList
  Lexeme.nameLength cs = cs.length && !cs.isEmpty

end Reckon
