import Reckon.Host

/-!
# Randomness

Random numbers from the generator of the core library.
-/

namespace Reckon

/-- A number from `[0, 1)` and the generator behind it. -/
def drawUnit (g : StdGen) : Float × StdGen :=
  let (n, g) := stdNext g
  (Float.ofNat (n - 1) / 2147483562, g)

/-- A random number from `[0, 1)`. -/
def chance : StateM StdGen Float :=
  modifyGet drawUnit

/-- The host of built-in operations alone. -/
def Host.plain : Host StdGen :=
  .withBuiltins chance fun name _ => throw (.native ("no function " ++ name))

end Reckon
