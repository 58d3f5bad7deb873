/-!
# Places in a code

A `Location` is a byte offset together with the line and the column. Walking over one character (`Location.after`) adds
its length in UTF-8 to the offset and one to the column, or starts the next line. `Location.ofOffset` finds the place
of an arbitrary offset: the last character boundary that does not exceed it.

Lines are counted without a limit here. A line that is reported has 32 bits, and the places behind the greatest of them
are said to be on that line: `Location.saturated`.
-/

namespace Reckon

-- zero is the built-in one, whatever else has a zero
attribute [local instance (high)] Zero.ofOfNat0

/-- A place in a code. -/
structure Location where
  /-- Bytes before this place. -/
  offset : Nat
  /-- The line, from one. It has no limit before it is reported (`Location.saturated`). -/
  line : Nat
  /-- The column in characters, from one. -/
  column : Nat
  deriving DecidableEq, Repr

/-- The number of bytes of a text in UTF-8. -/
def utf8Length (cs : List Char) : Nat :=
  (cs.map Char.utf8Size).sum

namespace Location

/-- The place before the first character. -/
def start : Location := ⟨0, 1, 1⟩

/-- The place behind the character `c`. -/
def after (l : Location) (c : Char) : Location :=
  if c = '\n' then ⟨l.offset + c.utf8Size, l.line + 1, 1⟩
  else ⟨l.offset + c.utf8Size, l.line, l.column + 1⟩

/-- The place behind the text `cs`. -/
def afterText (l : Location) (cs : List Char) : Location :=
  cs.foldl after l

/-- Walks on from `l` as long as the offset does not exceed `target`. -/
def seek (target : Nat) (l : Location) : List Char → Location
  | [] => l
  | c :: cs => if l.offset + c.utf8Size ≤ target then seek target (l.after c) cs else l

/-- The place of an offset in a code, whatever the number of lines. -/
def ofOffset (code : String) (offset : Nat) : Location :=
  seek offset start code.toList

/-- The greatest line that is reported. -/
def greatestLine : Nat := UInt32.size - 1

/-- The place as it is reported, with a line of 32 bits. -/
def saturated (l : Location) : Location :=
  { l with line := min l.line greatestLine }

@[simp] theorem afterText_nil (l : Location) : l.afterText [] = l := rfl

@[simp] theorem afterText_cons (l : Location) (c : Char) (cs : List Char) :
    l.afterText (c :: cs) = (l.after c).afterText cs := rfl

theorem afterText_append (l : Location) (xs ys : List Char) :
    l.afterText (xs ++ ys) = (l.afterText xs).afterText ys := by
  simp [afterText]

@[simp] theorem offset_after (l : Location) (c : Char) : (l.after c).offset = l.offset + c.utf8Size := by
  unfold after; split <;> rfl

theorem offset_afterText (l : Location) (cs : List Char) : (l.afterText cs).offset = l.offset + utf8Length cs := by
  induction cs generalizing l with
  | nil => simp [utf8Length]
  | cons c cs ih => simp [ih, utf8Length]; omega

end Location

end Reckon
