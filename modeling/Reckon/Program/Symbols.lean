import Reckon.Program

/-!
# Symbols

The names that a program refers to, each once and in the order of their first occurrence. With members, a variable and
the fields taken of it make up one dotted name. `SymbolScan` is the state of the walk: a dotted name is pending as long
as it may grow.
-/

namespace Reckon

/-- How far the search for symbols has come. -/
structure SymbolScan where
  /-- The symbols that are complete. -/
  found : List String
  /-- The dotted name that may still grow. -/
  pending : Option String
  deriving DecidableEq, Repr

namespace SymbolScan

/-- Adds a name unless it is there. -/
def record (names : List String) (name : String) : List String :=
  if names.contains name then names else names ++ [name]

/-- Completes the pending name. -/
def flush (s : SymbolScan) : SymbolScan :=
  match s.pending with
  | some path => ⟨record s.found path, none⟩
  | none => s

/-- Refers to a variable. -/
def load (members : Bool) (s : SymbolScan) (name : String) : SymbolScan :=
  if members then { s.flush with pending := some name } else { s with found := record s.found name }

/-- Takes a field. -/
def member (s : SymbolScan) (field : String) : SymbolScan :=
  { s with pending := s.pending.map (· ++ "." ++ field) }

end SymbolScan

namespace Program

mutual

/-- Walks over one step. -/
def scanStep (members : Bool) (s : SymbolScan) : Instruction → SymbolScan
  | .load name => s.load members name
  | .member field => s.member field
  | .suspend body => (scan members s.flush body).flush
  | _ => s.flush

/-- Walks over a program. -/
def scan (members : Bool) (s : SymbolScan) : List Instruction → SymbolScan
  | [] => s
  | i :: rest => scan members (scanStep members s i) rest

end

theorem scan_append (members : Bool) (s : SymbolScan) (p q : Program) :
    scan members s (p ++ q) = scan members (scan members s p) q := by
  induction p generalizing s with
  | nil => simp [scan]
  | cons i p ih => simp [scan, ih]

/-- The names that a program refers to, with or without the fields taken of them. -/
def symbols (members : Bool) (p : Program) : List String :=
  (scan members ⟨[], none⟩ p).flush.found

end Program

end Reckon
