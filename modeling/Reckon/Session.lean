import Reckon.CompiledFunction

/-!
# Sessions

An environment that changes while formulas are read. A formula keeps the environment it was read in, with the number of
changes made before (`Snapshot`); two formulas share an environment if these numbers are the same.
-/

namespace Reckon

/-- An environment and how often it was changed. -/
structure Session where
  /-- The environment. -/
  env : Environment
  /-- How often it was changed. -/
  revision : Nat

/-- A formula and the revision of the environment it was read in. -/
structure Snapshot where
  /-- The formula. -/
  formula : Formula
  /-- The revision. -/
  revision : Nat

namespace Session

/-- Changes the environment. Formulas that were read before keep the old one. -/
def change (s : Session) (f : Environment → Environment) : Session :=
  ⟨f s.env, s.revision + 1⟩

/-- A formula of this moment. -/
def snapshot (s : Session) (f : Formula) : Snapshot :=
  ⟨f, s.revision⟩

/-- Reads a code, with the options of the environment if no others are given. -/
def parse (s : Session) (o : Option Options) (code : String) : Except ParseError Snapshot :=
  (Formula.parseWith s.env (o.getD s.env.options) code).map s.snapshot

/-- Takes a program as it is. -/
def ofProgram (s : Session) (p : Program) : Snapshot :=
  s.snapshot (.ofProgram s.env p)

end Session

namespace Snapshot

/-- A formula derived from this one. -/
def derive (s : Snapshot) (f : Formula) : Snapshot :=
  { s with formula := f }

/-- Are two formulas of one environment equal? -/
def same (s t : Snapshot) : Bool :=
  decide (s.revision = t.revision) && s.formula.agrees t.formula

end Snapshot

end Reckon
