import Reckon.Token.Rules

/-!
# Reading tokens

A `Cursor` is a place in a code with the text that is left. `Cursor.step` passes the gap in front of the next token and
reads that token, and there is less text behind it (`Cursor.length_lt_of_step`). `Tokens.ofCode` reads on to the end
or to the first error.
-/

namespace Reckon

/-- A place in a code and the text that is left. -/
structure Cursor where
  /-- The place. -/
  location : Location
  /-- The text from there on. -/
  rest : List Char
  deriving DecidableEq

namespace Cursor

/-- The start of a code. -/
def ofCode (code : String) : Cursor :=
  ⟨.start, code.toList⟩

/-- Goes on by `n` characters. -/
def forward (c : Cursor) (n : Nat) : Cursor :=
  ⟨c.location.afterText (c.rest.take n), c.rest.drop n⟩

/-- Passes blanks and comments. -/
def skipGap (c : Cursor) : Cursor :=
  c.forward (Lexeme.gapLength .outside c.rest)

/-- The token of the next `n` characters. -/
def token (c : Cursor) (n : Nat) (kind : TokenKind) : Token :=
  ⟨kind, c.location, c.rest.take n⟩

/-- The error of a fault in the token that starts here. -/
def fault (c : Cursor) (f : Lexeme.Fault) : ParseError :=
  let place := c.forward f.skipped
  ⟨f.cause, place.location, place.rest.take f.count⟩

/-- What comes next. -/
inductive Step
  /-- A token, and the cursor behind it. -/
  | token (t : Token) (next : Cursor)
  /-- Nothing more. -/
  | finish (t : Token)
  /-- A faulty token. -/
  | fault (e : ParseError)

/-- Reads the next token. -/
def step (g : Grammar) (o : Options) (c : Cursor) : Step :=
  let here := c.skipGap
  if here.rest = [] then .finish (here.token 0 .finish)
  else
    match Lexeme.recognise g o here.rest with
    | .ok l => .token (here.token l.length l.kind) (here.forward l.length)
    | .error f => .fault (here.fault f)

theorem length_forward (c : Cursor) (n : Nat) : (c.forward n).rest.length = c.rest.length - n := by
  simp [forward]

/-- Behind a token there is less text. -/
theorem length_lt_of_step {g : Grammar} {o : Options} {c next : Cursor} {t : Token}
    (h : c.step g o = .token t next) : next.rest.length < c.rest.length := by
  simp only [step] at h
  split at h
  · cases h
  · rename_i hne
    split at h
    · rename_i l _
      cases h
      have hpos := List.length_pos_iff.2 hne
      rw [skipGap, length_forward] at hpos
      rw [length_forward, skipGap, length_forward]
      have := l.length_pos
      omega
    · cases h

/-- The next token, or the token of the end, and the cursor behind it. -/
def next (g : Grammar) (o : Options) (c : Cursor) : Except ParseError (Token × Cursor) :=
  match c.step g o with
  | .token t c' => .ok (t, c')
  | .finish t => .ok (t, c.skipGap)
  | .fault e => .error e

end Cursor

/-- The tokens of a code and what follows them: the token of its end, or the error that ends it early. -/
structure Tokens where
  /-- The tokens. -/
  list : List Token
  /-- What follows them. -/
  ending : Except ParseError Token

namespace Tokens

/-- All tokens from a cursor on. -/
def ofCursor (g : Grammar) (o : Options) (c : Cursor) : Tokens :=
  match h : c.step g o with
  | .token t c' =>
    have := Cursor.length_lt_of_step h
    let later := ofCursor g o c'
    { later with list := t :: later.list }
  | .finish t => ⟨[], .ok t⟩
  | .fault e => ⟨[], .error e⟩
termination_by c.rest.length

/-- All tokens of a code. -/
def ofCode (g : Grammar) (o : Options) (code : String) : Tokens :=
  ofCursor g o (.ofCode code)

end Tokens

end Reckon
