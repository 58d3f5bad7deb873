/-!
# Tables

Finite maps from names as lists of entries. `lookup` after `insert` and after `erase` is given by `lookup_insert` and
`lookup_erase`. Changes keep the names in ascending order (`ascending_insert`, `ascending_erase`), and of the tables in
that order each is given by its entries (`Ascending.ext_lookup`).
-/

namespace Reckon

/-- Names with entries. -/
abbrev Table (α : Type) := List (String × α)

namespace Table

variable {α : Type}

/-- The entry under a name. -/
def lookup (name : String) : Table α → Option α
  | [] => none
  | (n, a) :: rest => if n = name then some a else lookup name rest

/-- Puts an entry under a name, in place of the one that is there. -/
def insert (name : String) (value : α) : Table α → Table α
  | [] => [(name, value)]
  | (n, a) :: rest =>
    if name < n then (name, value) :: (n, a) :: rest
    else if name = n then (name, value) :: rest
    else (n, a) :: insert name value rest

/-- Takes the entry under a name away. -/
def erase (name : String) (t : Table α) : Table α :=
  t.filter fun e => e.1 ≠ name

/-- Is there an entry under this name? -/
def has (name : String) (t : Table α) : Bool :=
  (lookup name t).isSome

/-- The names in ascending order. -/
def names (t : Table α) : List String :=
  t.map (·.1)

/-- Puts entries in from left to right: the last one under a name stays. -/
def insertAll (t : Table α) (entries : List (String × α)) : Table α :=
  entries.foldl (fun t e => insert e.1 e.2 t) t

/-- The table of a list of entries, of which the last one under a name stays. -/
def ofEntries (entries : List (String × α)) : Table α :=
  insertAll [] entries

theorem lookup_insert (name other : String) (value : α) (t : Table α) :
    lookup other (insert name value t) = if name = other then some value else lookup other t := by
  induction t with
  | nil => simp [insert, lookup]
  | cons e rest ih =>
    obtain ⟨n, a⟩ := e
    unfold insert
    split
    · simp [lookup]
    · split
      · subst_vars; by_cases h : n = other <;> simp [lookup, h]
      · rename_i hne
        simp only [lookup, ih]
        by_cases h : n = other
        · subst h; simp [hne]
        · simp [h]

theorem lookup_erase (name other : String) (t : Table α) :
    lookup other (erase name t) = if name = other then none else lookup other t := by
  induction t with
  | nil => simp [erase, lookup]
  | cons e rest ih =>
    obtain ⟨n, a⟩ := e
    unfold erase at ih ⊢
    by_cases hn : n = name
    · subst hn
      by_cases h : n = other <;> simp_all [lookup]
    · by_cases h : n = other
      · subst h; simp [lookup, hn, Ne.symm hn]
      · simpa [lookup, hn, h] using ih

/-! ## Order -/

/-- The names ascend, so each is there once. -/
def Ascending (t : Table α) : Prop :=
  t.names.Pairwise (· < ·)

theorem ascending_nil : Ascending ([] : Table α) :=
  .nil

theorem mem_names_insert {name other : String} {value : α} {t : Table α} :
    other ∈ names (insert name value t) ↔ other = name ∨ other ∈ t.names := by
  induction t with
  | nil => simp [insert, names]
  | cons e rest ih =>
    obtain ⟨n, a⟩ := e
    unfold insert
    split
    · simp [names]
    · split
      · simp_all [names]
      · simp only [names, List.map_cons, List.mem_cons] at ih ⊢
        rw [ih]
        exact or_left_comm

theorem ascending_insert {name : String} {value : α} {t : Table α} (h : t.Ascending) :
    Ascending (insert name value t) := by
  induction t with
  | nil => simp [insert, Ascending, names]
  | cons e rest ih =>
    obtain ⟨n, a⟩ := e
    have ⟨hn, hrest⟩ := List.pairwise_cons.1 h
    unfold insert
    split
    · rename_i hlt
      refine List.pairwise_cons.2 ⟨fun m hm => ?_, h⟩
      rcases List.mem_cons.1 hm with rfl | hm
      · exact hlt
      · exact String.lt_trans hlt (hn m hm)
    · split
      · subst_vars; exact h
      · rename_i hge hne
        refine List.pairwise_cons.2 ⟨fun m hm => ?_, ih hrest⟩
        rcases mem_names_insert.1 hm with rfl | hm
        · exact String.not_le.1 fun hle => hne (String.le_antisymm hle (String.not_lt.1 hge))
        · exact hn m hm

theorem ascending_erase {name : String} {t : Table α} (h : t.Ascending) : Ascending (erase name t) :=
  h.sublist (List.filter_sublist.map _)

theorem lookup_eq_none {name : String} {t : Table α} (h : ∀ n ∈ t.names, name < n) : lookup name t = none := by
  induction t with
  | nil => rfl
  | cons e rest ih =>
    have hne : e.1 ≠ name := fun heq => String.lt_irrefl name (heq ▸ h e.1 (by simp [names]))
    simp only [lookup, hne, if_false]
    exact ih fun n hn => h n (List.mem_cons_of_mem _ hn)

theorem lookup_eq_none_of_lt_head {name : String} {e : String × α} {t : Table α} (h : Ascending (e :: t))
    (hlt : name < e.1) : lookup name (e :: t) = none :=
  lookup_eq_none fun n hn => by
    rcases List.mem_cons.1 hn with rfl | hn
    · exact hlt
    · exact String.lt_trans hlt ((List.pairwise_cons.1 h).1 n hn)

/-- Tables in ascending order with the same entries are the same. -/
theorem Ascending.ext_lookup {t u : Table α} (ht : t.Ascending) (hu : u.Ascending)
    (h : ∀ name, lookup name t = lookup name u) : t = u := by
  induction t generalizing u with
  | nil =>
    cases u with
    | nil => rfl
    | cons e _ => simpa [lookup] using h e.1
  | cons d t ih =>
    cases u with
    | nil => simpa [lookup] using h d.1
    | cons e u =>
      have not_lt : ¬d.1 < e.1 := fun hlt => by
        simpa [lookup] using (h d.1).trans (lookup_eq_none_of_lt_head hu hlt)
      have not_gt : ¬e.1 < d.1 := fun hlt => by
        simpa [lookup] using (h e.1).symm.trans (lookup_eq_none_of_lt_head ht hlt)
      obtain ⟨n, a⟩ := d
      obtain ⟨m, b⟩ := e
      obtain rfl : n = m := String.le_antisymm (String.not_lt.1 not_gt) (String.not_lt.1 not_lt)
      obtain rfl : a = b := by simpa [lookup] using h n
      have ⟨hn, ht⟩ := List.pairwise_cons.1 ht
      have ⟨hm, hu⟩ := List.pairwise_cons.1 hu
      congr 1
      refine ih ht hu fun name => ?_
      by_cases hname : n = name
      · subst hname
        rw [lookup_eq_none hn, lookup_eq_none hm]
      · simpa [lookup, hname] using h name

end Table

end Reckon
