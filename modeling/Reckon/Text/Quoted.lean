import Reckon.Number.Numeral
import Reckon.Text.Utf16
import Reckon.Text.Visible

/-!
# Quoted strings

A string literal stands between two quotes of the same kind. Inside, a backslash opens an escape: a single character,
or `u` and four hexadecimal digits for a UTF-16 unit. `encode` writes a literal, `bodyLength` finds where the body of
one ends, and `decode` reads the body in two steps: into pieces, each a character or a unit, and the pieces into
characters (`ofPieces`), where a high surrogate takes the unit behind it along.
-/

namespace Reckon.Text.Quoted

/-! ## Writing -/

/-- A control character: the categories of controls are U+0000 to U+001F and U+007F to U+009F. -/
def isControl (c : Char) : Bool :=
  c.toNat < 0x20 || 0x7F ≤ c.toNat && c.toNat < 0xA0

/-- How a character is written inside double quotes. -/
def escape (c : Char) : List Char :=
  match c with
  | '"' => ['\\', '"']
  | '\\' => ['\\', '\\']
  | '\n' => ['\\', 'n']
  | '\r' => ['\\', 'r']
  | '\t' => ['\\', 't']
  | '\x08' => ['\\', 'b']
  | '\x0c' => ['\\', 'f']
  | c => if isControl c then (utf16Units c).flatMap fun u => '\\' :: 'u' :: (hexText 4 u).toList else [c]

/-- A string as a literal in double quotes. -/
def encode (cs : List Char) : List Char :=
  '"' :: cs.flatMap escape ++ ['"']

/-! ## Reading -/

/-- The length of the body behind an opening `quote`: characters other than this quote, and backslashes each with the
character behind it. A backslash with nothing behind it is not part of a body. -/
def bodyLength (quote : Char) : List Char → Nat
  | [] => 0
  | c :: rest =>
    if c = quote then 0
    else if c = '\\' then
      match rest with
      | [] => 0
      | _ :: rest' => 2 + bodyLength quote rest'
    else 1 + bodyLength quote rest

/-- A part of a body. -/
inductive Piece
  /-- A character, as itself or by a simple escape. -/
  | char (c : Char)
  /-- A UTF-16 unit. -/
  | unit (u : Nat)
  deriving DecidableEq, Repr

/-- Why an escape is refused. -/
inductive Defect
  /-- No such escape. -/
  | unknown (c : Char)
  /-- Fewer than four hexadecimal digits; the characters that stand there. -/
  | unicode (hex : List Char)
  deriving DecidableEq, Repr

/-- A refused escape and the number of characters in front of it. -/
structure BadEscape where
  /-- Characters in front of the backslash. -/
  skipped : Nat
  /-- What is wrong. -/
  defect : Defect
  deriving DecidableEq, Repr

/-- The same escape, seen from `n` characters further left. -/
def BadEscape.behind (n : Nat) (e : BadEscape) : BadEscape :=
  { e with skipped := n + e.skipped }

/-- The character of a simple escape. -/
def simpleEscape? (c : Char) : Option Char :=
  match c with
  | '\\' | '\'' | '"' | '/' => some c
  | 'b' => some '\x08'
  | 'f' => some '\x0c'
  | 'n' => some '\n'
  | 'r' => some '\r'
  | 't' => some '\t'
  | _ => none

/-- A hexadecimal digit of either case. -/
def isHexDigit (c : Char) : Bool :=
  Numeral.isDigit c || 'a' ≤ c && c ≤ 'f' || 'A' ≤ c && c ≤ 'F'

/-- Reads the pieces of a body from left to right. -/
def pieces : List Char → Except BadEscape (List Piece)
  | [] => .ok []
  | c :: rest =>
    if c ≠ '\\' then andThen 1 (.char c) (pieces rest)
    else
      match rest with
      | [] => .ok [.char '\\']
      | e :: rest =>
        match simpleEscape? e with
        | some x => andThen 2 (.char x) (pieces rest)
        | none =>
          if e ≠ 'u' then .error ⟨0, .unknown e⟩
          else
            match rest with
            | h₁ :: h₂ :: h₃ :: h₄ :: rest' =>
              if [h₁, h₂, h₃, h₄].all isHexDigit then
                andThen 6 (.unit (Numeral.ofDigits 16 [h₁, h₂, h₃, h₄])) (pieces rest')
              else .error ⟨0, .unicode [h₁, h₂, h₃, h₄]⟩
            | short => .error ⟨0, .unicode short⟩
where
  /-- Puts a piece of `n` characters in front. -/
  andThen (n : Nat) (p : Piece) : Except BadEscape (List Piece) → Except BadEscape (List Piece)
    | .ok ps => .ok (p :: ps)
    | .error e => .error (e.behind n)

/-- The characters of the pieces. -/
def ofPieces : List Piece → List Char
  | [] => []
  | .char c :: rest => c :: ofPieces rest
  | .unit u :: .unit next :: rest =>
    if isHighSurrogate u then pairChars u next ++ ofPieces rest else unitChar u :: ofPieces (.unit next :: rest)
  | .unit u :: rest => unitChar u :: ofPieces rest

/-- The string that a body stands for. -/
def decode (body : List Char) : Except BadEscape (List Char) :=
  (pieces body).map ofPieces

end Reckon.Text.Quoted
