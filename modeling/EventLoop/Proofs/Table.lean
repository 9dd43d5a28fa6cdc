import EventLoop.Table
import Mathlib.Data.List.Nodup

/-!
# Lookups and tables

Members of an object are looked up in the list of them, and the first one of a name is found.
Where no name comes twice, that is all there is to a list of members: their order makes no
difference (`lookup_eq_some_iff_mem`), and the table of them has what a lookup finds
(`Table.get?_ofList_of_nodup`).

A table is written as the list of its entries, and read by adding them to the empty table one
after the other (`Table.ofList_entries`).
-/

namespace EventLoop

variable {α : Type}

/-! ## Lists of members -/

/-- Where no name comes twice, a lookup finds each of the members. -/
theorem lookup_eq_some_iff_mem {members : List (String × α)} (h : (members.map Prod.fst).Nodup)
    {key : String} {value : α} : members.lookup key = some value ↔ (key, value) ∈ members := by
  induction members with
  | nil => simp
  | cons member rest ih =>
      obtain ⟨name, content⟩ := member
      obtain ⟨hname, hrest⟩ := List.nodup_cons.1 h
      rw [List.lookup_cons, List.mem_cons]
      by_cases hkey : key = name
      · subst hkey
        have hnot : (key, value) ∉ rest := fun hmem =>
          hname (List.mem_map.2 ⟨(key, value), hmem, rfl⟩)
        simp [hnot, eq_comm]
      · simp [hkey, beq_false_of_ne hkey, ih hrest]

/-- A name that a lookup does not find is the name of no member. -/
theorem lookup_eq_none_iff_not_mem {members : List (String × α)} {key : String} :
    members.lookup key = none ↔ key ∉ members.map Prod.fst := by
  rw [List.lookup_eq_none_iff, List.mem_map]
  constructor
  · rintro hall ⟨member, hmem, rfl⟩
    exact absurd rfl (bne_iff_ne.1 (hall member hmem))
  · exact fun hnone member hmem => bne_iff_ne.2 fun hkey => hnone ⟨member, hmem, hkey.symm⟩

/-- Among some of the members, a lookup finds what it finds among all of them, if that is one
of the some. -/
theorem lookup_filter {members : List (String × α)} (h : (members.map Prod.fst).Nodup)
    (keep : String × α → Bool) (key : String) :
    (members.filter keep).lookup key =
      (members.lookup key).filter fun value => keep (key, value) := by
  have hkept : ((members.filter keep).map Prod.fst).Nodup :=
    h.sublist (List.filter_sublist.map _)
  refine Option.ext fun value => ?_
  rw [lookup_eq_some_iff_mem hkept, List.mem_filter, Option.filter_eq_some_iff,
    lookup_eq_some_iff_mem h]

/-! ## Tables -/

/-- An entry whose name comes behind all others is added at the end. -/
theorem insertEntry_last {name : String} {entries : List (String × α)} (value : α)
    (h : ∀ entry ∈ entries, entry.1 < name) :
    insertEntry name value entries = entries ++ [(name, value)] := by
  induction entries with
  | nil => rfl
  | cons entry rest ih =>
      obtain ⟨hentry, hrest⟩ := List.forall_mem_cons.1 h
      rw [insertEntry, if_neg (String.lt_asymm hentry), if_pos hentry, ih hrest,
        List.cons_append]

namespace Table

/-- The entries of a table are the names that have a value, with their values. -/
theorem mem_entries_iff {table : Table α} {name : String} {value : α} :
    (name, value) ∈ table.entries ↔ table.get? name = some value := by
  have hnodup : (table.entries.map Prod.fst).Nodup :=
    List.pairwise_map.2 (table.ordered.imp String.ne_of_lt)
  exact (lookup_eq_some_iff_mem hnodup).symm

/-- Entries that come in order behind those of a table are added at its end. -/
theorem entries_insertAll (entries : List (String × α)) :
    ∀ table : Table α, Ordered (table.entries ++ entries) →
      (table.insertAll entries).entries = table.entries ++ entries := by
  induction entries with
  | nil => exact fun table _ => (List.append_nil _).symm
  | cons entry rest ih =>
      intro table hordered
      have hlast : (table.insert entry.1 entry.2).entries = table.entries ++ [entry] :=
        insertEntry_last entry.2 fun other hother =>
          (List.pairwise_append.1 hordered).2.2 other hother entry List.mem_cons_self
      rw [List.append_cons, ← hlast] at hordered
      have hrest := ih _ hordered
      rwa [hlast, ← List.append_cons] at hrest

/-- A table is the one of its entries. -/
theorem ofList_entries (table : Table α) : ofList table.entries = table :=
  ext (entries_insertAll table.entries empty table.ordered)

theorem get?_insertAll (entries : List (String × α)) (name : String) :
    ∀ table : Table α,
      (table.insertAll entries).get? name = (entries.reverse.lookup name).or (table.get? name) := by
  induction entries with
  | nil => exact fun _ => rfl
  | cons entry rest ih =>
      intro table
      have hentry : ([entry].lookup name).or (table.get? name) =
          (table.insert entry.1 entry.2).get? name := by
        obtain ⟨key, value⟩ := entry
        rw [get?_insert, List.lookup_cons]
        by_cases hname : name = key
        · simp [hname]
        · simp [hname, beq_false_of_ne hname]
      rw [List.reverse_cons, List.lookup_append, Option.or_assoc, hentry]
      exact ih _

@[simp]
theorem get?_ofList (entries : List (String × α)) (name : String) :
    (ofList entries).get? name = entries.reverse.lookup name := by
  rw [ofList, get?_insertAll, get?_empty, Option.or_none]

/-- Where no name comes twice, the first entry of a name is the last one. -/
theorem get?_ofList_of_nodup {entries : List (String × α)}
    (h : (entries.map Prod.fst).Nodup) (name : String) :
    (ofList entries).get? name = entries.lookup name := by
  have hreverse : (entries.reverse.map Prod.fst).Nodup := by
    rw [List.map_reverse]
    exact List.nodup_reverse.2 h
  rw [get?_ofList]
  refine Option.ext fun value => ?_
  rw [lookup_eq_some_iff_mem hreverse, lookup_eq_some_iff_mem h, List.mem_reverse]

/-! ## Unions -/

/-- The entries of two tables, of which those of the second one count where both have one. -/
def union (table other : Table α) : Table α :=
  table.insertAll other.entries

@[simp]
theorem get?_union (table other : Table α) (name : String) :
    (table.union other).get? name = (other.get? name).or (table.get? name) := by
  rw [union, get?_insertAll, ← get?_ofList, ofList_entries]

theorem union_empty (table : Table α) : table.union empty = table := rfl

theorem empty_union (table : Table α) : empty.union table = table :=
  ofList_entries table

theorem union_assoc (first second third : Table α) :
    (first.union second).union third = first.union (second.union third) := by
  refine ext_get? fun name => ?_
  rw [get?_union, get?_union, get?_union, get?_union, Option.or_assoc]

/-- Adding entries is a union with their table. -/
theorem insertAll_eq_union (table : Table α) (entries : List (String × α)) :
    table.insertAll entries = table.union (ofList entries) := by
  refine ext_get? fun name => ?_
  rw [get?_insertAll, get?_union, get?_ofList]

end Table

end EventLoop
