/-!
# Ranges of code points

A property of characters is given by the closed ranges of code points that have it, in ascending order. A character
has the property if its code point lies in one of them (`Ranges.has`).
-/

namespace Reckon.Text

/-- Closed ranges of code points, in ascending order. -/
abbrev Ranges := List (Nat × Nat)

/-- Does some range hold the code point of `c`? -/
def Ranges.has (rs : Ranges) (c : Char) : Bool :=
  rs.any fun r => r.1 ≤ c.toNat && c.toNat ≤ r.2

end Reckon.Text
