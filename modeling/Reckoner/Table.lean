/-!
# Tables of named entries

A finite map from names, held in ascending order of names. Names compare by code point, which is
also the order of their UTF-8 bytes, so a listing of a table is its listing by byte order. Since
the order is part of the type, a table is determined by its lookups.
-/

namespace Reckoner

/-- A finite map from names to values of type `α`, listed in ascending order of names. -/
structure Table (α : Type) where
  /-- The entries in ascending order of names. -/
  entries : List (String × α)
  /-- Every name occurs once, and the listing ascends. -/
  ascending : entries.Pairwise fun earlier later => earlier.1 < later.1

namespace Table

variable {α : Type}

/-- The table without entries. -/
def empty : Table α := ⟨[], .nil⟩

instance : Inhabited (Table α) := ⟨empty⟩

/-- The value held under a name. -/
def find? (table : Table α) (name : String) : Option α :=
  table.entries.lookup name

/-- A name is in the table when it has a value there. -/
def contains (table : Table α) (name : String) : Bool :=
  (table.find? name).isSome

/-- The number of names in the table. -/
def size (table : Table α) : Nat := table.entries.length

/-- Put an entry into an ascending list, in place of one of the same name. -/
def insertEntry (name : String) (value : α) : List (String × α) → List (String × α)
  | [] => [(name, value)]
  | (key, held) :: rest =>
    if name < key then (name, value) :: (key, held) :: rest
    else if name = key then (name, value) :: rest
    else (key, held) :: insertEntry name value rest

theorem lookup_cons_ite (key name : String) (held : α) (rest : List (String × α)) :
    ((key, held) :: rest).lookup name = if name = key then some held else rest.lookup name := by
  by_cases same : name = key
  · subst same
    simp
  · have different : (name == key) = false := beq_false_of_ne same
    rw [List.lookup_cons, different, if_neg same]

theorem mem_insertEntry {name : String} {value : α} {entry : String × α}
    {list : List (String × α)} (h : entry ∈ insertEntry name value list) :
    entry = (name, value) ∨ entry ∈ list := by
  induction list with
  | nil => simpa [insertEntry] using h
  | cons head rest ih =>
    obtain ⟨key, held⟩ := head
    rw [insertEntry] at h
    grind

theorem insertEntry_ascending (name : String) (value : α) {list : List (String × α)}
    (h : list.Pairwise fun earlier later => earlier.1 < later.1) :
    (insertEntry name value list).Pairwise fun earlier later => earlier.1 < later.1 := by
  induction list with
  | nil => simp [insertEntry]
  | cons head rest ih =>
    obtain ⟨key, held⟩ := head
    have first : ∀ entry ∈ rest, key < entry.1 := fun _ mem => List.rel_of_pairwise_cons h mem
    have others := List.Pairwise.of_cons h
    rw [insertEntry]
    split
    · next before =>
      exact h.cons fun entry mem => (List.mem_cons.mp mem).elim (fun e => e ▸ before)
        fun m => String.lt_trans before (first entry m)
    · split
      · next same => exact others.cons fun entry mem => same ▸ first entry mem
      · next notBefore notSame =>
        have after : key < name := by grind
        exact (ih others).cons fun entry mem =>
          (mem_insertEntry mem).elim (fun e => e ▸ after) (first entry)

/-- Give a name a value, replacing the one it had. -/
def insert (table : Table α) (name : String) (value : α) : Table α :=
  ⟨insertEntry name value table.entries, insertEntry_ascending name value table.ascending⟩

/-- Take a name and its value out of the table. -/
def erase (table : Table α) (name : String) : Table α :=
  ⟨table.entries.filter fun entry => entry.1 != name, table.ascending.filter _⟩

theorem lookup_insertEntry (name other : String) (value : α) (list : List (String × α)) :
    (insertEntry name value list).lookup other =
      if other = name then some value else list.lookup other := by
  induction list with
  | nil => simp [insertEntry, lookup_cons_ite]
  | cons head rest ih =>
    obtain ⟨key, held⟩ := head
    rw [insertEntry]
    split
    · simp [lookup_cons_ite]
    · split <;> simp only [lookup_cons_ite, ih] <;> grind

theorem lookup_filter (name other : String) (list : List (String × α)) :
    (list.filter fun entry => entry.1 != name).lookup other =
      if other = name then none else list.lookup other := by
  induction list with
  | nil => simp
  | cons head rest ih =>
    obtain ⟨key, held⟩ := head
    by_cases same : key = name <;> simp only [List.filter_cons, lookup_cons_ite] <;> grind

theorem mem_of_lookup {name : String} {value : α} {list : List (String × α)}
    (h : list.lookup name = some value) : (name, value) ∈ list := by
  induction list with
  | nil => simp at h
  | cons head rest ih =>
    obtain ⟨key, held⟩ := head
    rw [lookup_cons_ite] at h
    grind

@[simp] theorem find?_empty (name : String) : (empty : Table α).find? name = none := rfl

/-- A name reads back the value it was given, and the other names keep theirs. -/
theorem find?_insert (table : Table α) (name other : String) (value : α) :
    (table.insert name value).find? other =
      if other = name then some value else table.find? other :=
  lookup_insertEntry name other value table.entries

/-- An erased name has no value, and the other names keep theirs. -/
theorem find?_erase (table : Table α) (name other : String) :
    (table.erase name).find? other = if other = name then none else table.find? other :=
  lookup_filter name other table.entries

/-- The sum of a measure over a list of entries. -/
def sumOf (measure : String × α → Nat) : List (String × α) → Nat
  | [] => 0
  | entry :: rest => measure entry + sumOf measure rest

/-- The sum of a measure over the entries of the table. -/
def total (measure : String × α → Nat) (table : Table α) : Nat := sumOf measure table.entries

theorem sumOf_le_sumOf {first second : String × α → Nat}
    (le : ∀ entry, first entry ≤ second entry) (list : List (String × α)) :
    sumOf first list ≤ sumOf second list := by
  induction list with
  | nil => exact Nat.le_refl 0
  | cons entry rest ih => exact Nat.add_le_add (le entry) ih

/-- A measure that is nowhere greater than another one has no greater sum. -/
theorem total_le_total {first second : String × α → Nat}
    (le : ∀ entry, first entry ≤ second entry) (table : Table α) :
    table.total first ≤ table.total second :=
  sumOf_le_sumOf le table.entries

theorem sumOf_add_le_sumOf {first second : String × α → Nat}
    (le : ∀ entry, first entry ≤ second entry) {difference : Nat} {name : String} {value : α}
    (less : first (name, value) + difference ≤ second (name, value)) {list : List (String × α)}
    (found : list.lookup name = some value) :
    sumOf first list + difference ≤ sumOf second list := by
  induction list with
  | nil => contradiction
  | cons head rest ih =>
    obtain ⟨key, held⟩ := head
    rw [lookup_cons_ite] at found
    simp only [sumOf]
    split at found
    · next same =>
      obtain rfl := Option.some.inj found
      subst same
      have others := sumOf_le_sumOf le rest
      omega
    · have here := le (key, held)
      have others := ih found
      omega

/-- If the measure is less by some difference at an entry, then so is its sum. -/
theorem total_add_le_total {first second : String × α → Nat}
    (le : ∀ entry, first entry ≤ second entry) {difference : Nat} {name : String} {value : α}
    (less : first (name, value) + difference ≤ second (name, value)) {table : Table α}
    (found : table.find? name = some value) :
    table.total first + difference ≤ table.total second :=
  sumOf_add_le_sumOf le less found

end Table

end Reckoner
