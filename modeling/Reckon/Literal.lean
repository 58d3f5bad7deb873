/-!
# Literals

The values that can be written down in a code.
-/

namespace Reckon

/-- A number or a string. -/
inductive Literal
  /-- A number. -/
  | number (value : Float)
  /-- A string. -/
  | string (value : String)
  deriving DecidableEq

end Reckon
