/-!
# UTF-16 code units

A character beyond U+FFFF is a pair of surrogates: a high unit followed by a low one. A surrogate that is not part of
a pair stands for U+FFFD.
-/

namespace Reckon.Text

/-- A unit that opens a pair. -/
def isHighSurrogate (u : Nat) : Bool :=
  0xD800 ≤ u && u < 0xDC00

/-- A unit that closes a pair. -/
def isLowSurrogate (u : Nat) : Bool :=
  0xDC00 ≤ u && u < 0xE000

/-- The character that stands for broken text. -/
def replacement : Char := '\uFFFD'

/-- The character of a single unit. -/
def unitChar (u : Nat) : Char :=
  if isHighSurrogate u || isLowSurrogate u then replacement else Char.ofNat u

/-- The characters of a high unit and the unit behind it. -/
def pairChars (high next : Nat) : List Char :=
  if isLowSurrogate next then [Char.ofNat (0x10000 + (high - 0xD800) * 0x400 + (next - 0xDC00))]
  else [replacement, unitChar next]

/-- The units of a character. -/
def utf16Units (c : Char) : List Nat :=
  let n := c.toNat
  if n < 0x10000 then [n] else [0xD800 + (n - 0x10000) / 0x400, 0xDC00 + (n - 0x10000) % 0x400]

end Reckon.Text
