import ClassNames.Table
import ClassNames.Text.Bytes
import Mathlib.Data.Finset.Dedup
import Mathlib.Data.List.Induction
import Mathlib.Data.Prod.Lex

/-!
# Which entries make a table

Entries are collected one by one, so the last entry of a parent counts and what came before
it does not, not even in the check.  The check goes through the parents in order and
through the children of each in order, and stops at the first pair of different groups that
list each other.  As the pairs stand in order, that is the least such pair, and its two
groups stand in order too: the pair the other way round would be met later.
-/

namespace ClassNames.Table

open Text

/-! ## What the entries say -/

/-- The children of each entry of a parent, in the order of the entries. -/
def listed (entries : List (String × List String)) (parent : String) : List (List String) :=
  (entries.filter fun entry => entry.1 = parent).map Prod.snd

/-- The child stands in the last entry of the parent. -/
def Lists (entries : List (String × List String)) (parent child : String) : Prop :=
  ∃ children, (listed entries parent).getLast? = some children ∧ child ∈ children

/-- Two different groups list each other. -/
def Reciprocal (entries : List (String × List String)) (left right : String) : Prop :=
  left ≠ right ∧ Lists entries left right ∧ Lists entries right left

/-- Of the pairs of different groups that list each other this one comes first, in the
order of the left groups and then of the right ones. -/
structure LeastReciprocal (entries : List (String × List String)) (parent child : String) :
    Prop where
  reciprocal : Reciprocal entries parent child
  least : ∀ left right, Reciprocal entries left right →
    Precedes parent left ∨ (parent = left ∧ (child = right ∨ Precedes child right))

/-- The table has just the parents of the entries as its groups, each with the children of
its last entry, and lists both in order. -/
structure Holds (table : Table) (entries : List (String × List String)) : Prop where
  hasGroup : ∀ group, table.hasGroup group ↔ group ∈ entries.map Prod.fst
  children : ∀ group child, child ∈ table.children group ↔ Lists entries group child
  groups_inOrder : table.groupNames.Pairwise Precedes
  children_inOrder : ∀ entry ∈ table.toList, entry.2.Pairwise Precedes

/-- For each parent the two lists have the same entries in the same order, apart from the
order and the repetition of the children.  Entries of different parents may be mixed in any
way. -/
def Rearranges (left right : List (String × List String)) : Prop :=
  ∀ parent, (listed left parent).map List.toFinset = (listed right parent).map List.toFinset

variable {table : Table} {entries : List (String × List String)}

/-! ## Collecting entries -/

/-- Of the entries for a key the last one counts, and without one the map keeps what it has. -/
theorem getElem?_insertMany {Value : Type} (map : Std.ExtTreeMap String Value)
    (entries : List (String × Value)) (key : String) :
    (map.insertMany entries)[key]? =
      ((entries.filter fun entry => entry.1 = key).map Prod.snd).getLast?.or map[key]? := by
  induction entries using List.reverseRecOn with
  | nil => rfl
  | append_singleton entries entry ih =>
    obtain ⟨last, value⟩ := entry
    rw [Std.ExtTreeMap.insertMany_append, Std.ExtTreeMap.insertMany_list_singleton,
      Std.ExtTreeMap.getElem?_insert]
    by_cases hkey : last = key
    · simp [hkey]
    · simp [hkey, ih]

/-- The group that a parent gets is made of its last entry. -/
theorem getElem?_groups_collect (entries : List (String × List String)) (group : String) :
    (collect entries).groups[group]? =
      (listed entries group).getLast?.map fun children => Std.ExtTreeSet.ofList children := by
  rw [collect, Std.ExtTreeMap.ofList_eq_insertMany_empty, getElem?_insertMany, List.filter_map,
    List.map_map, listed, ← List.getLast?_map, List.map_map]
  simp [Function.comp_def]

theorem hasGroup_collect_iff {group : String} :
    (collect entries).hasGroup group ↔ group ∈ entries.map Prod.fst := by
  rw [hasGroup, collect, Std.ExtTreeMap.contains_ofList, List.contains_iff_mem, List.map_map]
  rfl

theorem subsumes_collect_iff {parent child : String} :
    (collect entries).Subsumes parent child ↔ Lists entries parent child := by
  rw [Subsumes, children, Std.ExtTreeMap.getD_eq_getD_getElem?, getElem?_groups_collect, Lists]
  cases (listed entries parent).getLast? with
  | none => simp
  | some children => simp

theorem valid_collect_iff :
    (collect entries).Valid ↔ ∀ left right, ¬ Reciprocal entries left right := by
  simp only [Valid, Reciprocal, subsumes_collect_iff, not_and]

/-! ## The order of a table -/

theorem precedes_of_compare {left right : String} (h : compare left right = .lt) :
    Precedes left right :=
  precedes_of_lt (compareOfLessAndEq_eq_lt.mp h)

theorem groupNames_inOrder (table : Table) : table.groupNames.Pairwise Precedes :=
  Std.ExtTreeMap.ordered_keys.imp precedes_of_compare

theorem toList_inOrder (table : Table) :
    table.toList.Pairwise fun left right => Precedes left.1 right.1 := by
  rw [toList, List.pairwise_map]
  exact Std.ExtTreeMap.ordered_keys_toList.imp precedes_of_compare

theorem children_inOrder {entry : String × List String} (hentry : entry ∈ table.toList) :
    entry.2.Pairwise Precedes := by
  obtain ⟨group, -, rfl⟩ := List.mem_map.mp hentry
  exact Std.ExtTreeSet.ordered_toList.imp precedes_of_compare

/-- The pairs of a parent and a child stand in order. -/
theorem edges_inOrder (table : Table) :
    table.edges.Pairwise (Prod.Lex Precedes Precedes) := by
  rw [edges, List.pairwise_flatMap]
  constructor
  · intro entry hentry
    rw [List.pairwise_map]
    apply (children_inOrder hentry).imp
    intro left right hbefore
    exact Prod.Lex.right _ hbefore
  · apply table.toList_inOrder.imp
    intro left right hbefore pair hpair other hother
    obtain ⟨child, -, rfl⟩ := List.mem_map.mp hpair
    obtain ⟨child', -, rfl⟩ := List.mem_map.mp hother
    exact Prod.Lex.left _ _ hbefore

/-! ## The check -/

theorem reciprocal_of_reciprocal? {parent child : String}
    (hfound : (collect entries).reciprocal? = some (parent, child)) :
    Reciprocal entries parent child := by
  obtain ⟨hne, hforward, hback⟩ := subsumes_of_reciprocal? hfound
  exact ⟨hne, subsumes_collect_iff.mp hforward, subsumes_collect_iff.mp hback⟩

/-- The search stops at the pair in front of all others. -/
theorem leastReciprocal_of_reciprocal? {parent child : String}
    (hfound : (collect entries).reciprocal? = some (parent, child)) :
    LeastReciprocal entries parent child := by
  refine ⟨reciprocal_of_reciprocal? hfound, ?_⟩
  rintro left right ⟨hne, hforward, hback⟩
  have hmem : (left, right) ∈ (collect entries).edges :=
    mem_edges_iff.mpr (subsumes_collect_iff.mpr hforward)
  have hreturns : (collect entries).Subsumes right left := subsumes_collect_iff.mpr hback
  obtain ⟨-, before, after, hedges, hbefore⟩ := List.find?_eq_some_iff_append.mp hfound
  have hsorted := edges_inOrder (collect entries)
  rw [hedges] at hmem hsorted
  rcases List.mem_append.mp hmem with hmem | hmem
  · -- No pair in front of the one that is found passes the test.
    have hfailed := hbefore (left, right) hmem
    simp [Ne.symm hne, hreturns] at hfailed
  · rcases List.mem_cons.mp hmem with hsame | hmem
    · obtain ⟨rfl, rfl⟩ := Prod.mk.inj hsame
      exact Or.inr ⟨rfl, Or.inl rfl⟩
    · have hfirst := (List.pairwise_append.mp hsorted).2.1
      have hlex := List.rel_of_pairwise_cons hfirst hmem
      rcases Prod.lex_def.mp hlex with hparent | ⟨hparent, hchild⟩
      · exact Or.inl hparent
      · exact Or.inr ⟨hparent, Or.inr hchild⟩

/-- The pair the other way round is a pair too, so the two groups stand in order. -/
theorem LeastReciprocal.precedes {parent child : String}
    (hleast : LeastReciprocal entries parent child) : Precedes parent child := by
  obtain ⟨⟨hne, hforward, hback⟩, hfirst⟩ := hleast
  rcases hfirst child parent ⟨Ne.symm hne, hback, hforward⟩ with hbefore | ⟨hsame, -⟩
  · exact hbefore
  · exact absurd hsame hne

theorem holds_collect (entries : List (String × List String)) :
    Holds (collect entries) entries where
  hasGroup _ := hasGroup_collect_iff
  children _ _ := subsumes_collect_iff
  groups_inOrder := groupNames_inOrder _
  children_inOrder _ := children_inOrder

/-! ## Rearranged entries -/

theorem listed_append (left right : List (String × List String)) (parent : String) :
    listed (left ++ right) parent = listed left parent ++ listed right parent := by
  simp [listed]

theorem Rearranges.trans {left middle right : List (String × List String)}
    (hleft : Rearranges left middle) (hright : Rearranges middle right) :
    Rearranges left right :=
  fun parent => (hleft parent).trans (hright parent)

/-- Neighbours with different parents can change places. -/
theorem rearranges_exchange (before after : List (String × List String))
    {left right : String × List String} (hne : left.1 ≠ right.1) :
    Rearranges (before ++ [left, right] ++ after) (before ++ [right, left] ++ after) := by
  intro parent
  have hpair : listed [left, right] parent = listed [right, left] parent := by
    by_cases hleft : left.1 = parent
    · have hright : right.1 ≠ parent := fun hright => hne (hleft.trans hright.symm)
      simp [listed, hleft, hright]
    · by_cases hright : right.1 = parent
      · simp [listed, hleft, hright]
      · simp [listed, hleft, hright]
  rw [listed_append, listed_append, hpair, ← listed_append, ← listed_append]

/-- The children of an entry can change places and be repeated. -/
theorem rearranges_children (before after : List (String × List String)) (parent : String)
    {left right : List String} (hsame : ∀ child, child ∈ left ↔ child ∈ right) :
    Rearranges (before ++ [(parent, left)] ++ after) (before ++ [(parent, right)] ++ after) := by
  have hset : left.toFinset = right.toFinset := by
    ext child
    rw [List.mem_toFinset, List.mem_toFinset, hsame]
  intro group
  have hentry : (listed [(parent, left)] group).map List.toFinset =
      (listed [(parent, right)] group).map List.toFinset := by
    by_cases hgroup : parent = group
    · simp [listed, hgroup, hset]
    · simp [listed, hgroup]
  simp only [listed_append, List.map_append, hentry]

/-- Lists with the same names make the same set. -/
theorem ofList_names_congr {left right : List String} (hsame : left.toFinset = right.toFinset) :
    (Std.ExtTreeSet.ofList left : NameSet) = Std.ExtTreeSet.ofList right := by
  apply Std.ExtTreeSet.ext_mem
  intro child
  have hchild : child ∈ left ↔ child ∈ right := by
    rw [← List.mem_toFinset, hsame, List.mem_toFinset]
  simpa using hchild

theorem map_ofList_congr {left right : List (List String)}
    (hsame : left.map List.toFinset = right.map List.toFinset) :
    (left.map fun children => (Std.ExtTreeSet.ofList children : NameSet)) =
      right.map fun children => Std.ExtTreeSet.ofList children := by
  induction left generalizing right with
  | nil =>
    obtain rfl : right = [] := by simpa using hsame.symm
    rfl
  | cons children left ih =>
    obtain ⟨other, right, rfl⟩ := List.exists_cons_of_length_eq_add_one
      (by simpa using (congrArg List.length hsame).symm)
    obtain ⟨hhead, htail⟩ := List.cons.inj hsame
    rw [List.map_cons, List.map_cons, ofList_names_congr hhead, ih htail]

theorem collect_congr {other : List (String × List String)} (hsame : Rearranges entries other) :
    collect other = collect entries := by
  apply ext_groups
  intro group
  rw [getElem?_groups_collect, getElem?_groups_collect, ← List.getLast?_map,
    ← List.getLast?_map, map_ofList_congr (hsame group)]

/-- Entries are accepted exactly when no two different groups list each other, each by its
last entry.  Then the table holds what the last entries say, in order, and otherwise the
error names the least pair.  Only the last entries and the sets of their children matter. -/
theorem ofList_accepts_or_names_least (entries : List (String × List String)) :
    (((∀ left right, ¬ Reciprocal entries left right) ∧
        ∃ table, ofList entries = .ok table ∧ Holds table entries) ∨
      ∃ parent child, ofList entries = .error (.reciprocal parent child) ∧
        LeastReciprocal entries parent child ∧ Precedes parent child) ∧
      ∀ other, Rearranges entries other → ofList other = ofList entries := by
  constructor
  · cases hfound : (collect entries).reciprocal? with
    | none =>
      have hvalid := reciprocal?_eq_none_iff.mp hfound
      exact Or.inl ⟨valid_collect_iff.mp hvalid, collect entries, ofList_eq_ok_of_valid hvalid,
        holds_collect entries⟩
    | some pair =>
      obtain ⟨parent, child⟩ := pair
      have hleast := leastReciprocal_of_reciprocal? hfound
      have herror : ofList entries = .error (.reciprocal parent child) := by
        simp [ofList, hfound]
      exact Or.inr ⟨parent, child, herror, hleast, hleast.precedes⟩
  · intro other hsame
    rw [ofList, ofList, collect_congr hsame]

/-- The first entry of `b` would make a pair with `a`, but a later one takes its place.  In
the refused entries `y` makes a pair with `z`, too. -/
theorem ofList_shadowed_and_refused :
    let entries := [("b", ["a"]), ("b", ["c", "b"]), ("a", ["b", "d"])]
    let other := [("b", ["a"]), ("a", ["d", "b", "d"]), ("b", ["c", "b"])]
    let refused := [("z", ["y"]), ("y", ["z", "x"]), ("x", ["y"])]
    (∃ table, ofList entries = .ok table ∧ Holds table entries) ∧
      Rearranges entries other ∧ ofList other = ofList entries ∧
      ofList refused = .error (.reciprocal "x" "y") ∧ LeastReciprocal refused "x" "y" := by
  intro entries other refused
  have hsame : Rearranges entries other :=
    (rearranges_exchange [("b", ["a"])] [] (by decide)).trans
      (rearranges_children [("b", ["a"])] [("b", ["c", "b"])] "a" (by simp))
  have haccepted : (ofList entries).toOption.isSome := by decide +kernel
  have hfound : (collect refused).reciprocal? = some ("x", "y") := by decide +kernel
  have herror : ofList refused = .error (.reciprocal "x" "y") := by rw [ofList, hfound]
  obtain ⟨htable, hrearranged⟩ := ofList_accepts_or_names_least entries
  obtain ⟨hrefused, -⟩ := ofList_accepts_or_names_least refused
  refine ⟨?_, hsame, hrearranged other hsame, herror, ?_⟩
  · rcases htable with ⟨-, haccept⟩ | ⟨parent, child, hreject, -⟩
    · exact haccept
    · rw [hreject] at haccepted
      cases haccepted
  · rcases hrefused with ⟨-, table, haccept, -⟩ | ⟨parent, child, hreject, hleast, -⟩
    · cases herror.symm.trans haccept
    · cases herror.symm.trans hreject
      exact hleast

end ClassNames.Table
