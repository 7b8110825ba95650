import Std.Data.ExtTreeMap
import Std.Data.ExtTreeSet

/-!
# Specificity tables

A table says which style groups subsume which others: a later class name of a
parent group removes earlier ones of its children.  Tables are finite maps from
a group to the set of its children, kept in the order of the names, so two tables
are equal exactly when they list the same groups with the same children.

A table is valid when no two different groups subsume each other.  A group may
list itself, and longer cycles are allowed.  `Table.ofList` is the only way to
turn entries into a table, and it refuses entries that would not be valid.
-/

namespace ClassNames

/-- A finite set of names, in the order of the names. -/
abbrev NameSet := Std.ExtTreeSet String

/-- The groups of a table, each with the set of groups that it subsumes. -/
structure Table where
  groups : Std.ExtTreeMap String NameSet
deriving DecidableEq

/-- Why there is no table. -/
inductive Table.Error where
  /-- The two groups subsume each other. -/
  | reciprocal (parent child : String)
  /-- The document that should hold the table cannot be read. -/
  | unreadable (detail : String)
deriving DecidableEq, Repr, Inhabited

namespace Table

/-- The wording of an error. -/
def Error.message : Error → String
  | .reciprocal parent child =>
    "invalid specificity mapping: '" ++ parent ++ "' and '" ++ child ++
      "' subsume each other"
  | .unreadable detail => "failed to parse specificity config: " ++ detail

/-- The table without groups. -/
def empty : Table := ⟨∅⟩

/-- The groups that `group` subsumes.  A group without an entry subsumes none. -/
def children (table : Table) (group : String) : NameSet :=
  table.groups.getD group ∅

/-- There is an entry for `group`. -/
def hasGroup (table : Table) (group : String) : Bool :=
  table.groups.contains group

/-- The number of entries. -/
def size (table : Table) : Nat :=
  table.groups.size

/-- The groups that have an entry, in order. -/
def groupNames (table : Table) : List String :=
  table.groups.keys

/-- The entries in order, each with its children in order. -/
def toList (table : Table) : List (String × List String) :=
  table.groups.toList.map fun (parent, children) => (parent, children.toList)

/-- The parent lists the child. -/
def Subsumes (table : Table) (parent child : String) : Prop :=
  child ∈ table.children parent

instance (table : Table) (parent child : String) :
    Decidable (table.Subsumes parent child) :=
  inferInstanceAs (Decidable (child ∈ table.children parent))

/-- No two different groups subsume each other. -/
def Valid (table : Table) : Prop :=
  ∀ left right, left ≠ right → table.Subsumes left right → ¬ table.Subsumes right left

/-- Every parent with each of its children, in the order of the parents and then
of the children. -/
def edges (table : Table) : List (String × String) :=
  table.toList.flatMap fun (parent, children) => children.map (parent, ·)

/-- The first parent and child that are different groups and subsume each
other. -/
def reciprocal? (table : Table) : Option (String × String) :=
  table.edges.find? fun (parent, child) =>
    child ≠ parent && table.Subsumes child parent

/-- The map from each parent to the children of its last entry. -/
def collect (entries : List (String × List String)) : Table :=
  ⟨Std.ExtTreeMap.ofList (entries.map fun (parent, children) =>
    (parent, Std.ExtTreeSet.ofList children))⟩

/-- The table with the given entries.  Of several entries for one parent the last
one counts. -/
def ofList (entries : List (String × List String)) : Except Error Table :=
  match (collect entries).reciprocal? with
  | some (parent, child) => .error (.reciprocal parent child)
  | none => .ok (collect entries)

/-- The table with its entries overwritten by further ones. -/
def extend (table : Table) (entries : List (String × List String)) :
    Except Error Table :=
  ofList (table.toList ++ entries)

/-- The entries of the built-in table.  The group `mb` lists the top margin and
itself, and `my` has no entry; existing style sheets rely on both. -/
def builtInEntries : List (String × List String) :=
  [("p", ["px", "py", "pt", "pr", "pl", "pb"]),
   ("px", ["pl", "pr"]),
   ("py", ["pt", "pb"]),
   ("m", ["mx", "my", "mt", "mr", "ml", "mb"]),
   ("mx", ["mr", "ml"]),
   ("mb", ["mt", "mb"]),
   ("pbl", ["pbls", "pble"]),
   ("pin", ["pins", "pine"])]

/-- The table in use when no other is given. -/
def builtIn : Table := collect builtInEntries

instance : Inhabited Table := ⟨builtIn⟩

/-- Tables with the same entries are the same. -/
theorem ext_groups {left right : Table}
    (hgroups : ∀ group : String, left.groups[group]? = right.groups[group]?) : left = right :=
  congrArg mk (Std.ExtTreeMap.ext_getElem? fun {group} => hgroups group)

@[simp]
theorem children_empty (group : String) : empty.children group = ∅ := by
  simp [children, empty]

theorem mem_edges_iff {table : Table} {parent child : String} :
    (parent, child) ∈ table.edges ↔ table.Subsumes parent child := by
  simp only [edges, toList, Subsumes, children, List.mem_flatMap, List.mem_map, Prod.exists]
  constructor
  · rintro ⟨p, cs, ⟨q, set, hentry, heq⟩, c, hc, hpair⟩
    obtain ⟨rfl, rfl⟩ := Prod.mk.inj heq
    obtain ⟨rfl, rfl⟩ := Prod.mk.inj hpair
    rw [Std.ExtTreeMap.mem_toList_iff_getElem?_eq_some] at hentry
    simpa [Std.ExtTreeMap.getD_eq_getD_getElem?, hentry] using hc
  · intro hmem
    rw [Std.ExtTreeMap.getD_eq_getD_getElem?] at hmem
    cases hentry : table.groups[parent]? with
    | none => simp [hentry] at hmem
    | some set =>
      simp only [hentry, Option.getD_some] at hmem
      exact ⟨parent, set.toList, ⟨parent, set,
        Std.ExtTreeMap.mem_toList_iff_getElem?_eq_some.mpr hentry, rfl⟩,
        child, by simpa using hmem, rfl⟩

/-- A table is valid exactly when the search for a pair finds none. -/
theorem reciprocal?_eq_none_iff {table : Table} : table.reciprocal? = none ↔ table.Valid := by
  simp only [reciprocal?, List.find?_eq_none, Prod.forall, mem_edges_iff, Valid]
  constructor
  · intro hnone left right hne hforward hback
    exact hnone left right hforward (by simp [Ne.symm hne, hback])
  · intro hvalid parent child hforward
    simp only [Bool.and_eq_true, decide_eq_true_eq, not_and]
    intro hne hback
    exact hvalid parent child (fun h => hne h.symm) hforward hback

/-- A pair that is found is one. -/
theorem subsumes_of_reciprocal? {table : Table} {parent child : String}
    (hfound : table.reciprocal? = some (parent, child)) :
    parent ≠ child ∧ table.Subsumes parent child ∧ table.Subsumes child parent := by
  obtain ⟨hne, hback⟩ : child ≠ parent ∧ table.Subsumes child parent := by
    simpa using List.find?_some hfound
  exact ⟨Ne.symm hne, mem_edges_iff.mp (List.mem_of_find?_eq_some hfound), hback⟩

theorem valid_of_ofList_eq_ok {entries : List (String × List String)} {table : Table}
    (h : ofList entries = .ok table) : table.Valid := by
  unfold ofList at h
  split at h
  · cases h
  · next hnone =>
    cases h
    exact reciprocal?_eq_none_iff.mp hnone

theorem ofList_eq_ok_of_valid {entries : List (String × List String)}
    (h : (collect entries).Valid) : ofList entries = .ok (collect entries) := by
  simp [ofList, reciprocal?_eq_none_iff.mpr h]

theorem valid_empty : empty.Valid := by
  intro left right _ hforward
  simp [Subsumes] at hforward

theorem valid_builtIn : builtIn.Valid :=
  reciprocal?_eq_none_iff.mp (by decide +kernel)

end Table

end ClassNames
