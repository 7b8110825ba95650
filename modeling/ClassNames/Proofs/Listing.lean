import ClassNames.Config

/-!
# Tables and their entries

A table lists its groups in order, each with its children in order, and this listing
is all there is to the table: collecting the entries gives the table back.  A valid
table therefore passes the check again whenever it is rebuilt from its entries, and a
config document made of the table lists just the same entries.
-/

namespace ClassNames

/-- A map is collected from its own entries. -/
theorem ofList_toList_map {Value : Type} (map : Std.ExtTreeMap String Value) :
    Std.ExtTreeMap.ofList map.toList = map := by
  apply Std.ExtTreeMap.ext_getElem?
  intro key
  cases hkey : map[key]? with
  | none =>
    have habsent : key ∉ map := by
      rwa [← getElem?_eq_none_iff]
    apply Std.ExtTreeMap.getElem?_ofList_of_contains_eq_false
    simpa using habsent
  | some value =>
    exact Std.ExtTreeMap.getElem?_ofList_of_mem Std.ReflCmp.compare_self
      Std.ExtTreeMap.distinct_keys_toList
      (Std.ExtTreeMap.mem_toList_iff_getElem?_eq_some.mpr hkey)

theorem ofList_toList_names (names : NameSet) :
    Std.ExtTreeSet.ofList names.toList = names := by
  apply Std.ExtTreeSet.ext_mem
  intro name
  simp

namespace Table

variable {table : Table}

/-- The children of each group, in order. -/
def listing (table : Table) : Std.ExtTreeMap String (List String) :=
  table.groups.map fun _ children => children.toList

theorem toList_listing (table : Table) : table.listing.toList = table.toList :=
  Std.ExtTreeMap.toList_map

/-- A table is collected from its own entries. -/
theorem collect_toList (table : Table) : collect table.toList = table := by
  have hentries : table.toList.map (fun entry =>
      (entry.1, (Std.ExtTreeSet.ofList entry.2 : NameSet))) = table.groups.toList := by
    simp [toList, Function.comp_def, ofList_toList_names]
  calc collect table.toList
      = ⟨Std.ExtTreeMap.ofList (table.toList.map fun entry =>
          (entry.1, Std.ExtTreeSet.ofList entry.2))⟩ := rfl
    _ = ⟨Std.ExtTreeMap.ofList table.groups.toList⟩ := by rw [hentries]
    _ = table := by rw [ofList_toList_map]

/-- The entries tell tables apart. -/
theorem toList_injective : Function.Injective toList := by
  intro left right heq
  rw [← collect_toList left, heq, collect_toList]

theorem ofList_toList (hvalid : table.Valid) : ofList table.toList = .ok table := by
  have hcollect : (collect table.toList).Valid := by rwa [collect_toList]
  rw [ofList_eq_ok_of_valid hcollect, collect_toList]

end Table

namespace Config

/-- The content of a config document is collected from its own entries. -/
theorem ofList_toList (config : Config) : ofList config.toList = config := by
  rw [ofList, toList, ofList_toList_map]

theorem ofTable_eq (table : Table) : ofTable table = ⟨table.listing⟩ := by
  rw [ofTable, ofList, ← Table.toList_listing, ofList_toList_map]

/-- A config document made of a table lists the entries of the table. -/
theorem toList_ofTable (table : Table) : (ofTable table).toList = table.toList := by
  rw [ofTable_eq]
  exact Table.toList_listing table

theorem ofTable_injective : Function.Injective ofTable := by
  intro left right heq
  apply Table.toList_injective
  rw [← toList_ofTable left, heq, toList_ofTable]

theorem toTable_ofTable {table : Table} (hvalid : table.Valid) :
    (ofTable table).toTable = .ok table := by
  rw [toTable, toList_ofTable, Table.ofList_toList hvalid]

end Config

end ClassNames
