/-!
# Tables

Finite maps from names to values, kept as a list of entries in increasing
order of names (the order of their code points).  The order is part of the
type, so a table is determined by what it holds: two tables with the same
`get?` are equal (`ext_get?`).
-/

namespace EventLoop

/-- Entries in strictly increasing order of names. -/
def Ordered {α : Type} (entries : List (String × α)) : Prop :=
  entries.Pairwise fun a b => a.1 < b.1

/-- Adds an entry at its place, in place of an entry of the same name. -/
def insertEntry {α : Type} (name : String) (value : α) : List (String × α) → List (String × α)
  | [] => [(name, value)]
  | entry :: rest =>
    if name < entry.1 then (name, value) :: entry :: rest
    else if entry.1 < name then entry :: insertEntry name value rest
    else (name, value) :: rest

theorem mem_insertEntry {α : Type} {name : String} {value : α} {entries : List (String × α)}
    {entry : String × α} (h : entry ∈ insertEntry name value entries) :
    entry = (name, value) ∨ entry ∈ entries := by
  induction entries with
  | nil => simp_all [insertEntry]
  | cons head rest ih =>
    simp only [insertEntry] at h
    split at h
    · simp only [List.mem_cons] at h ⊢
      rcases h with rfl | h
      · exact .inl rfl
      · exact .inr h
    · split at h
      · rcases List.mem_cons.1 h with rfl | h
        · exact .inr (by simp)
        · exact (ih h).imp id (List.mem_cons_of_mem _)
      · rcases List.mem_cons.1 h with rfl | h
        · exact .inl rfl
        · exact .inr (List.mem_cons_of_mem _ h)

theorem ordered_insertEntry {α : Type} (name : String) (value : α) {entries : List (String × α)}
    (h : Ordered entries) : Ordered (insertEntry name value entries) := by
  induction entries with
  | nil => simp [insertEntry, Ordered]
  | cons head rest ih =>
    obtain ⟨hhead, hrest⟩ := List.pairwise_cons.1 h
    simp only [insertEntry]
    split
    · rename_i hlt
      refine List.pairwise_cons.2 ⟨fun entry hentry => ?_, h⟩
      rcases List.mem_cons.1 hentry with rfl | hentry
      · exact hlt
      · exact String.lt_trans hlt (hhead entry hentry)
    · split
      · rename_i hgt
        refine List.pairwise_cons.2 ⟨fun entry hentry => ?_, ih hrest⟩
        rcases mem_insertEntry hentry with rfl | hmem
        · exact hgt
        · exact hhead entry hmem
      · rename_i hge hle
        have heq : name = head.1 :=
          String.le_antisymm (String.not_lt.1 hle) (String.not_lt.1 hge)
        exact List.pairwise_cons.2 ⟨heq ▸ hhead, hrest⟩

/-- A finite map from names to values. -/
structure Table (α : Type) where
  entries : List (String × α)
  ordered : Ordered entries

namespace Table

variable {α : Type}

/-- The table without entries. -/
def empty : Table α := ⟨[], .nil⟩

instance : Inhabited (Table α) := ⟨empty⟩

/-- The value of a name. -/
def get? (table : Table α) (name : String) : Option α :=
  table.entries.lookup name

/-- Whether a name has a value. -/
def contains (table : Table α) (name : String) : Bool :=
  (table.get? name).isSome

/-- Gives a name a value, in place of the one it has. -/
def insert (table : Table α) (name : String) (value : α) : Table α :=
  ⟨insertEntry name value table.entries, ordered_insertEntry name value table.ordered⟩

/-- Adds entries one after the other, so that later ones win. -/
def insertAll (table : Table α) (entries : List (String × α)) : Table α :=
  entries.foldl (fun table entry => table.insert entry.1 entry.2) table

/-- The table of a list of entries, of which the last one of a name counts. -/
def ofList (entries : List (String × α)) : Table α :=
  empty.insertAll entries

/-- Whether a table has no entries. -/
def isEmpty (table : Table α) : Bool :=
  table.entries.isEmpty

@[ext] theorem ext {a b : Table α} (h : a.entries = b.entries) : a = b := by
  cases a; cases b; simp_all

private theorem lookup_entry_cons (name : String) (entry : String × α)
    (entries : List (String × α)) :
    (entry :: entries).lookup name =
      if name = entry.1 then some entry.2 else entries.lookup name := by
  obtain ⟨key, value⟩ := entry
  by_cases h : name = key
  · simp [h]
  · have hne : (name == key) = false := by simpa using h
    simp [List.lookup_cons, h, hne]

private theorem lookup_insertEntry (name other : String) (value : α)
    (entries : List (String × α)) :
    (insertEntry name value entries).lookup other =
      if other = name then some value else entries.lookup other := by
  induction entries with
  | nil => simp [insertEntry, lookup_entry_cons]
  | cons head rest ih =>
    simp only [insertEntry]
    split
    · simp [lookup_entry_cons]
    · split
      · rename_i hgt
        by_cases hkey : other = head.1
        · have : head.1 ≠ name := fun h => String.lt_irrefl _ (h ▸ hgt)
          simp [lookup_entry_cons, hkey, this]
        · simp [lookup_entry_cons, hkey, ih]
      · rename_i hge hle
        have heq : name = head.1 := String.le_antisymm (String.not_lt.1 hle) (String.not_lt.1 hge)
        by_cases hkey : other = head.1 <;> simp [lookup_entry_cons, heq, hkey]

@[simp] theorem get?_empty (name : String) : (empty : Table α).get? name = none := rfl

theorem get?_insert (table : Table α) (name other : String) (value : α) :
    (table.insert name value).get? other =
      if other = name then some value else table.get? other :=
  lookup_insertEntry name other value table.entries

private theorem lookup_eq_none_of_lt {name : String} {entries : List (String × α)}
    (h : ∀ entry ∈ entries, name < entry.1) : entries.lookup name = none := by
  induction entries with
  | nil => rfl
  | cons head rest ih =>
    have hne : name ≠ head.1 := fun heq =>
      String.lt_irrefl _ (heq ▸ h head (by simp) : head.1 < head.1)
    simp only [lookup_entry_cons, hne, if_false]
    exact ih fun entry hentry => h entry (by simp [hentry])

private theorem eq_of_lookup_eq {a b : List (String × α)} (ha : Ordered a) (hb : Ordered b)
    (h : ∀ name, a.lookup name = b.lookup name) : a = b := by
  induction a generalizing b with
  | nil =>
    cases b with
    | nil => rfl
    | cons head rest => simpa [lookup_entry_cons] using h head.1
  | cons first rest ih =>
    cases b with
    | nil => simpa [lookup_entry_cons] using h first.1
    | cons second others =>
      obtain ⟨hfirst, hrest⟩ := List.pairwise_cons.1 ha
      obtain ⟨hsecond, hothers⟩ := List.pairwise_cons.1 hb
      have hname : first.1 = second.1 := by
        refine String.le_antisymm (String.not_lt.1 fun hlt => ?_) (String.not_lt.1 fun hlt => ?_)
        · have hnone : (first :: rest).lookup second.1 = none := lookup_eq_none_of_lt fun entry hentry => by
            rcases List.mem_cons.1 hentry with rfl | hentry
            · exact hlt
            · exact String.lt_trans hlt (hfirst entry hentry)
          simpa [hnone, lookup_entry_cons] using h second.1
        · have hnone : (second :: others).lookup first.1 = none := lookup_eq_none_of_lt fun entry hentry => by
            rcases List.mem_cons.1 hentry with rfl | hentry
            · exact hlt
            · exact String.lt_trans hlt (hsecond entry hentry)
          simpa [hnone, lookup_entry_cons] using (h first.1).symm
      have hvalue : first.2 = second.2 := by
        simpa [lookup_entry_cons, hname] using h first.1
      have htail : ∀ name, rest.lookup name = others.lookup name := by
        intro name
        by_cases heq : name = first.1
        · rw [heq, lookup_eq_none_of_lt hfirst, lookup_eq_none_of_lt (hname ▸ hsecond)]
        · have hne : name ≠ second.1 := hname ▸ heq
          simpa [lookup_entry_cons, heq, hne] using h name
      rw [ih hrest hothers htail, Prod.ext hname hvalue]

/-- A table is determined by the values of its names. -/
theorem ext_get? {a b : Table α} (h : ∀ name, a.get? name = b.get? name) : a = b :=
  ext (eq_of_lookup_eq a.ordered b.ordered h)

end Table

end EventLoop
