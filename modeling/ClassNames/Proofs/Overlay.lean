import ClassNames.Proofs.Acceptance
import ClassNames.Proofs.Listing
import ClassNames.Proofs.Steps

/-!
# Entries written over a table

Merging takes the entries of the current table as a map and lets further entries be written
over it one after the other.  Each group that the new entries name then has the children of
its last new entry, and every other group has those that it had.

Nothing else is checked than the result as a whole, so a merge can be refused.  The old
entries alone are never to blame: two groups that no new entry names have their old children,
and in a valid table those do not make a pair.  Entries that the table already has change
nothing.
-/

namespace ClassNames

namespace Table

/-- The entries of the table as a map, with further entries written over it in their order. -/
def overwritten (table : Table) (entries : List (String × List String)) :
    Std.ExtTreeMap String (List String) :=
  table.listing.insertMany entries

/-- What the table holds is what the old one held with the entries written over it. -/
structure Overlays (table old : Table) (entries : List (String × List String)) : Prop where
  named : ∀ group children, (listed entries group).getLast? = some children →
    ∀ child, child ∈ table.children group ↔ child ∈ children
  unnamed : ∀ group, group ∉ entries.map Prod.fst →
    table.children group = old.children group
  hasGroup : ∀ group,
    table.hasGroup group ↔ old.hasGroup group ∨ group ∈ entries.map Prod.fst

variable {table old : Table} {entries : List (String × List String)}

/-! ## The map that is written over -/

theorem listed_eq_nil {group : String} (hnot : group ∉ entries.map Prod.fst) :
    listed entries group = [] := by
  rw [listed, List.map_eq_nil_iff, List.filter_eq_nil_iff]
  intro entry hentry
  have hother : entry.1 ≠ group := fun hgroup => hnot (List.mem_map.mpr ⟨entry, hentry, hgroup⟩)
  simpa using hother

theorem getElem?_overwritten (table : Table) (entries : List (String × List String))
    (group : String) :
    (table.overwritten entries)[group]? =
      (listed entries group).getLast?.or table.listing[group]? :=
  getElem?_insertMany table.listing entries group

/-- Entries of the table itself are there already. -/
theorem overwritten_of_subset (hown : entries ⊆ table.toList) :
    table.overwritten entries = table.listing := by
  ext group : 1
  rw [getElem?_overwritten]
  cases hlast : (listed entries group).getLast? with
  | none => rw [Option.none_or]
  | some children =>
    have hentry : (group, children) ∈ entries := by
      simpa [listed] using List.mem_of_getLast? hlast
    have hlisting : table.listing[group]? = some children := by
      rw [← Std.ExtTreeMap.mem_toList_iff_getElem?_eq_some, toList_listing]
      exact hown hentry
    rw [hlisting, Option.some_or]

/-- A map of entries is collected group by group. -/
theorem groups_collect_toList (mapping : Std.ExtTreeMap String (List String)) :
    (collect mapping.toList).groups =
      mapping.map fun _ children => (Std.ExtTreeSet.ofList children : NameSet) := by
  rw [← ofList_toList_map (mapping.map _), Std.ExtTreeMap.toList_map]
  rfl

/-- The old groups stay, as far as no entry is written over them. -/
theorem getElem?_groups_overwritten (table : Table) (entries : List (String × List String))
    (group : String) :
    (collect (table.overwritten entries).toList).groups[group]? =
      ((listed entries group).getLast?.map fun children => Std.ExtTreeSet.ofList children).or
        table.groups[group]? := by
  have hold : table.listing[group]?.map (fun children => Std.ExtTreeSet.ofList children) =
      table.groups[group]? := by
    rw [listing, Std.ExtTreeMap.getElem?_map, Option.map_map]
    simp [Function.comp_def, ofList_toList_names]
  rw [groups_collect_toList, Std.ExtTreeMap.getElem?_map, getElem?_overwritten, Option.map_or,
    hold]

/-- Listing the old entries in front of the new ones comes to the same as writing the new
ones over them. -/
theorem collect_toList_append (table : Table) (entries : List (String × List String)) :
    collect (table.toList ++ entries) = collect (table.overwritten entries).toList := by
  apply ext_groups
  intro group
  rw [getElem?_groups_overwritten, getElem?_groups_collect, listed_append,
    List.getLast?_append, Option.map_or, ← getElem?_groups_collect table.toList, collect_toList]

theorem extend_eq (table : Table) (entries : List (String × List String)) :
    table.extend entries = ofList (table.overwritten entries).toList := by
  rw [extend, ofList, collect_toList_append, ofList]

/-! ## The table that comes of it -/

theorem hasGroup_iff_mem_toList {group : String} :
    table.hasGroup group ↔ group ∈ table.toList.map Prod.fst := by
  rw [← hasGroup_collect_iff, collect_toList]

theorem overlays_collect (old : Table) (entries : List (String × List String)) :
    (collect (old.overwritten entries).toList).Overlays old entries where
  named group children hlast child := by
    rw [Table.children, Std.ExtTreeMap.getD_eq_getD_getElem?, getElem?_groups_overwritten, hlast]
    simp
  unnamed group hnot := by
    rw [Table.children, Std.ExtTreeMap.getD_eq_getD_getElem?, getElem?_groups_overwritten,
      listed_eq_nil hnot, Table.children, Std.ExtTreeMap.getD_eq_getD_getElem?]
    rfl
  hasGroup group := by
    rw [← collect_toList_append, hasGroup_collect_iff, List.map_append, List.mem_append,
      hasGroup_iff_mem_toList]

/-- Two groups that no new entry names are no pair. -/
theorem Overlays.named_of_reciprocal (hoverlays : table.Overlays old entries)
    (hvalid : old.Valid) {parent child : String} (hne : parent ≠ child)
    (hforward : table.Subsumes parent child) (hback : table.Subsumes child parent) :
    parent ∈ entries.map Prod.fst ∨ child ∈ entries.map Prod.fst := by
  by_contra hnone
  obtain ⟨hparent, hchild⟩ := not_or.mp hnone
  apply hvalid parent child hne
  · rwa [Subsumes, ← hoverlays.unnamed parent hparent]
  · rwa [Subsumes, ← hoverlays.unnamed child hchild]

end Table

namespace Session

open Table

/-- What a merge does when writing the entries over the current table makes `overlay`.  If
that is valid it takes the place of the current table.  If not, nothing changes, and the
answer names two groups that would subsume each other, at least one of them from the
entries. -/
inductive Merges (session : Session) (entries : List (String × List String))
    (overlay : Table) (outcome : Outcome) : Prop where
  | accepted (hvalid : overlay.Valid)
    (hsession : outcome.session = session.withCurrent overlay) (hreply : outcome.reply = .done)
  | refused (parent child : String) (hne : parent ≠ child)
    (hforward : overlay.Subsumes parent child) (hback : overlay.Subsumes child parent)
    (hsession : outcome.session = session)
    (hreply : outcome.reply = .failed (.reciprocal parent child))
    (hnamed : parent ∈ entries.map Prod.fst ∨ child ∈ entries.map Prod.fst)

/-- Merging entries into a valid table is replacing its entries by those that the new ones
are written over.  It succeeds exactly when the overlay is valid, a refusal is the fault of
the new entries, and entries that the table has already change nothing. -/
theorem merge_overwrites (session : Session) (hvalid : session.current.Valid)
    (entries : List (String × List String)) :
    session.run (.merge entries) =
        session.run (.replace (session.current.overwritten entries).toList) ∧
      (∃ overlay, Overlays overlay session.current entries ∧
        session.Merges entries overlay (session.run (.merge entries))) ∧
      (entries ⊆ session.current.toList →
        (session.run (.merge entries)).session = session ∧
          (session.run (.merge entries)).reply = .done) := by
  have hreplace : session.run (.merge entries) =
      session.run (.replace (session.current.overwritten entries).toList) := by
    rw [run, run, extend_eq]
  refine ⟨hreplace, ⟨_, overlays_collect session.current entries, ?_⟩, ?_⟩
  · -- The overlay is the table before it is checked, so it exists when the check fails, too.
    rw [hreplace, run]
    cases hfound : (collect (session.current.overwritten entries).toList).reciprocal? with
    | none =>
      have hoverlay := reciprocal?_eq_none_iff.mp hfound
      rw [ofList_eq_ok_of_valid hoverlay]
      exact .accepted hoverlay rfl rfl
    | some pair =>
      obtain ⟨parent, child⟩ := pair
      obtain ⟨hne, hforward, hback⟩ := subsumes_of_reciprocal? hfound
      have hnamed := (overlays_collect session.current entries).named_of_reciprocal hvalid hne
        hforward hback
      rw [ofList, hfound]
      exact .refused parent child hne hforward hback rfl rfl hnamed
  · -- The table is rebuilt from its own entries and passes the check that it passed before.
    intro hown
    rw [hreplace, run, overwritten_of_subset hown, toList_listing, ofList_toList hvalid]
    exact ⟨rfl, rfl⟩

/-- Of two new entries for `gap` the later one counts.  An entry that lets `mb` subsume `m`
is refused, because `m` subsumes `mb` in the built-in table. -/
theorem merge_overwrites_builtIn :
    let session := start .shared Table.builtIn
    let entries := [("gap", ["gapx"]), ("p", ["px"]), ("gap", ["gapy", "gap"])]
    let refused := [("gap", ["gapx"]), ("mb", ["mt", "m"])]
    let own := [("px", ["pl", "pr"]), ("mb", ["mb", "mt"])]
    session.current.Valid ∧
      (∃ overlay, Overlays overlay Table.builtIn entries ∧
        (session.run (.merge entries)).session = session.withCurrent overlay) ∧
      (session.run (.merge refused)).reply = .failed (.reciprocal "m" "mb") ∧
      (session.run (.merge refused)).session = session ∧
      own ⊆ session.current.toList ∧ (session.run (.merge own)).session = session := by
  intro session entries refused own
  have hvalid : session.current.Valid := valid_builtIn
  have hdone : (session.run (.merge entries)).reply = .done := by decide +kernel
  have hfailed : (session.run (.merge refused)).reply = .failed (.reciprocal "m" "mb") := by
    decide +kernel
  have hown : own ⊆ session.current.toList := by decide +kernel
  obtain ⟨-, ⟨overlay, hoverlays, hmerges⟩, -⟩ := merge_overwrites session hvalid entries
  obtain ⟨-, ⟨_, -, hmerges'⟩, -⟩ := merge_overwrites session hvalid refused
  obtain ⟨-, -, hkept⟩ := merge_overwrites session hvalid own
  refine ⟨hvalid, ⟨overlay, hoverlays, ?_⟩, hfailed, ?_, hown, (hkept hown).1⟩
  · cases hmerges with
    | accepted _ hsession _ => exact hsession
    | refused _ _ _ _ _ _ hreply _ => cases hdone.symm.trans hreply
  · cases hmerges' with
    | accepted _ _ hreply => cases hreply.symm.trans hfailed
    | refused _ _ _ _ _ hsession _ _ => exact hsession

end Session

end ClassNames
