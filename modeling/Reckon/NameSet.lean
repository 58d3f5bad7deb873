import Reckon.Table

/-!
# Sets of names

Finite sets of names. What is in a set after a change is given by `mem_insert` and `mem_erase`, and sets with the same
members are equal (`ext_mem`), so the order of changes to different names does not matter.
-/

namespace Reckon

/-- A set of names, as a table that has nothing to say about them. -/
structure NameSet where
  /-- The names. -/
  table : Table Unit
  ascending : table.Ascending
  deriving DecidableEq

namespace NameSet

/-- No names. -/
def empty : NameSet := ⟨[], Table.ascending_nil⟩

instance : Membership String NameSet := ⟨fun s name => Table.has name s.table = true⟩

instance (name : String) (s : NameSet) : Decidable (name ∈ s) :=
  inferInstanceAs (Decidable (Table.has name s.table = true))

/-- Puts a name in. -/
def insert (s : NameSet) (name : String) : NameSet :=
  ⟨Table.insert name () s.table, Table.ascending_insert s.ascending⟩

/-- Takes a name out. -/
def erase (s : NameSet) (name : String) : NameSet :=
  ⟨Table.erase name s.table, Table.ascending_erase s.ascending⟩

theorem mem_iff {s : NameSet} {name : String} : name ∈ s ↔ Table.lookup name s.table = some () :=
  Option.isSome_iff_exists.trans ⟨fun ⟨_, h⟩ => h, fun h => ⟨_, h⟩⟩

theorem not_mem_empty (name : String) : name ∉ empty := by
  simp [mem_iff, empty, Table.lookup]

theorem mem_insert {s : NameSet} {name other : String} : other ∈ s.insert name ↔ name = other ∨ other ∈ s := by
  by_cases h : name = other <;> simp [mem_iff, insert, Table.lookup_insert, h]

theorem mem_erase {s : NameSet} {name other : String} : other ∈ s.erase name ↔ name ≠ other ∧ other ∈ s := by
  by_cases h : name = other <;> simp [mem_iff, erase, Table.lookup_erase, h]

/-- Sets with the same members are equal. -/
theorem ext_mem {s t : NameSet} (h : ∀ name, name ∈ s ↔ name ∈ t) : s = t := by
  have tables : s.table = t.table := s.ascending.ext_lookup t.ascending fun name =>
    Option.ext fun u => by cases u; exact mem_iff.symm.trans ((h name).trans mem_iff)
  cases s; cases t; simp_all

end NameSet

end Reckon
