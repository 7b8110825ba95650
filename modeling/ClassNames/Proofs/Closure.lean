import ClassNames.Proofs.Qualifier
import ClassNames.Proofs.Survival

/-!
# Tables closed under subsumption

A dropped name may owe its fate to a name that is dropped as well.  If the table
lists for each group also what its children subsume, then superseding is transitive,
and the last name that supersedes a dropped one is never dropped itself.  So no
style is lost, and a block of names may be resolved by itself wherever it stands.
-/

namespace ClassNames

/-- Groups are single segments, and whatever a child subsumes its parent does too. -/
structure Table.Closed (table : Table) : Prop where
  separatorFree : table.SeparatorFree
  transitive : ∀ parent child grandchild, table.Subsumes parent child →
    table.Subsumes child grandchild → table.Subsumes parent grandchild

namespace Token

variable {table : Table} {later earlier : Token}

/-- Two steps from a group to a child stay under the same modifiers, because a child
is one segment. -/
theorem mem_childQualifiers_trans (hclosed : table.Closed) {qualifier : String}
    (hearlier : earlier.qualifier ∈ later.childQualifiers table)
    (hqualifier : qualifier ∈ earlier.childQualifiers table) :
    qualifier ∈ later.childQualifiers table := by
  obtain ⟨group, child, hgroup, hchild, -, hsplit⟩ :=
    exists_child_of_mem_childQualifiers hclosed.separatorFree hearlier
  rw [mem_childQualifiers_iff] at hqualifier ⊢
  obtain ⟨own, hown, grandchild, hgrandchild, rfl⟩ := hqualifier
  have hmodifiers : earlier.modifiers = later.modifiers := by
    rw [modifiers, hsplit]
  have hsame : child = own := by
    rw [← (group?_eq_some_iff.mp hown).2, hsplit]
  rw [← hsame] at hgrandchild
  refine ⟨group, hgroup, grandchild, ?_, by rw [hmodifiers]⟩
  exact hclosed.transitive group child grandchild hchild hgrandchild

/-- A token that claims the slot of another one claims all that the other one claims. -/
theorem claims_subset (hclosed : table.Closed) {slot : Slot}
    (hslot : earlier.slot? = some slot) (hclaim : slot ∈ later.claims table) :
    earlier.claims table ⊆ later.claims table := by
  by_cases hstyle : earlier.kind.isStyle
  · obtain rfl : .style earlier.qualifier = slot := by
      rw [slot?_eq_style_iff.mpr ⟨hstyle, rfl⟩] at hslot
      exact Option.some.inj hslot
    obtain ⟨hlater, hreach⟩ := style_mem_claims_iff.mp hclaim
    intro other hother
    rw [claims, if_pos hstyle, List.mem_cons, List.mem_map] at hother
    obtain rfl | ⟨qualifier, hqualifier, rfl⟩ := hother
    · exact hclaim
    · apply style_mem_claims_iff.mpr
      refine ⟨hlater, Or.inr ?_⟩
      cases hreach with
      | inl hsame => exact childQualifiers_congr table hsame ▸ hqualifier
      | inr hchild => exact mem_childQualifiers_trans hclosed hchild hqualifier
  · intro other hother
    rw [claims, if_neg hstyle, hslot, Option.toList_some, List.mem_singleton] at hother
    exact hother ▸ hclaim

/-- Displacing passes through a token that is displaced itself. -/
theorem Displaces.trans (hclosed : table.Closed) {first : Token}
    (hlater : later.Displaces table earlier) (hearlier : earlier.Displaces table first) :
    later.Displaces table first := by
  obtain ⟨slot, hslot, hclaim⟩ := hearlier
  obtain ⟨own, hown, hclaim'⟩ := hlater
  exact ⟨slot, hslot, claims_subset hclosed hown hclaim' hclaim⟩

end Token

namespace Table

variable {table : Table}

theorem Overrides.trans (hclosed : table.Closed) {last middle first : String}
    (hlast : table.Overrides last middle) (hmiddle : table.Overrides middle first) :
    table.Overrides last first := by
  rw [← Token.displaces_parse_iff] at hlast hmiddle ⊢
  exact hlast.trans hclosed hmiddle

/-- Of the names that override a given one, one is kept. -/
theorem exists_kept_of_not_survives (hclosed : table.Closed)
    {name : String} {names : List String} (hgone : ¬ table.Survives names name) :
    ∃ (place : Nat) (other : String),
      (table.mark names)[place]? = some (Token.parse other, false) ∧
        table.Overrides other name := by
  induction names with
  | nil => exact absurd (table.survives_nil name) hgone
  | cons head names ih =>
    by_cases hrest : table.Survives names name
    · have hhead : table.Overrides head name := by
        simpa [hrest] using hgone
      -- Whatever overrides the head overrides the name too, and nothing does.
      have hkept : table.Survives names head :=
        fun other hmem hover => hrest other hmem (hover.trans hclosed hhead)
      exact ⟨0, head, by simp [mark_cons, hkept], hhead⟩
    · obtain ⟨place, other, hplace, hover⟩ := ih hrest
      exact ⟨place + 1, other, by simpa [mark_cons] using hplace, hover⟩

theorem mem_resolve_of_getElem?_mark {names : List String} {place : Nat}
    {token : Token} (hplace : (table.mark names)[place]? = some (token, false)) :
    token.raw ∈ table.resolve names := by
  have hmem := List.mem_of_getElem? hplace
  exact List.mem_map.mpr ⟨(token, false), List.mem_filter.mpr ⟨hmem, rfl⟩, rfl⟩

/-- A block overrides the same names before it and after it is resolved. -/
theorem survives_resolve_iff (hclosed : table.Closed) {name : String}
    {names : List String} :
    table.Survives (table.resolve names) name ↔ table.Survives names name := by
  constructor
  · intro hkept
    apply Classical.byContradiction
    intro hgone
    obtain ⟨place, other, hplace, hover⟩ := exists_kept_of_not_survives hclosed hgone
    have hmem := mem_resolve_of_getElem?_mark hplace
    rw [Token.raw_parse] at hmem
    exact hkept other hmem hover
  · intro hkept
    exact hkept.mono (table.resolve_sublist names).subset

theorem resolve_append_resolve_append (hclosed : table.Closed)
    (before block after : List String) :
    table.resolve (before ++ table.resolve block ++ after) =
      table.resolve (before ++ block ++ after) := by
  have hsurvives (name : String) : table.Survives (table.resolve block ++ after) name ↔
      table.Survives (block ++ after) name := by
    rw [survives_append, survives_append, survives_resolve_iff hclosed]
  rw [List.append_assoc, List.append_assoc, resolve_append, resolve_append table before,
    resolve_resolve_append]
  simp only [hsurvives]

/-- A dropped name has a later one that is kept and that drops it without help. -/
theorem exists_kept_of_dropped (hclosed : table.Closed)
    {names : List String} {place : Nat} {dropped : Token}
    (hplace : (table.mark names)[place]? = some (dropped, true)) :
    ∃ (later : Nat) (kept : Token), place < later ∧
      (table.mark names)[later]? = some (kept, false) ∧
      table.resolve [dropped.raw, kept.raw] = [kept.raw] := by
  rw [getElem?_mark, Option.map_eq_some_iff] at hplace
  obtain ⟨name, -, hpair⟩ := hplace
  obtain ⟨rfl, hgone⟩ := Prod.mk.inj hpair
  obtain ⟨offset, other, hother, hover⟩ :=
    exists_kept_of_not_survives hclosed (of_decide_eq_true hgone)
  rw [mark_drop, List.getElem?_drop] at hother
  refine ⟨place + 1 + offset, Token.parse other, by omega, hother, ?_⟩
  rw [Token.raw_parse, Token.raw_parse, resolve_pair, if_pos hover]

/-- Being closed is a matter of finitely many entries. -/
theorem closed_iff_edges :
    table.Closed ↔ ∀ edge ∈ table.edges, Token.separator ∉ edge.2.toList ∧
      ∀ next ∈ table.edges, next.1 = edge.2 → (edge.1, next.2) ∈ table.edges := by
  constructor
  · rintro ⟨hfree, htransitive⟩ ⟨parent, child⟩ hedge
    rw [mem_edges_iff] at hedge
    refine ⟨hfree parent child hedge, ?_⟩
    rintro ⟨middle, grandchild⟩ hnext rfl
    rw [mem_edges_iff] at hnext ⊢
    exact htransitive parent middle grandchild hedge hnext
  · intro hedges
    constructor
    · intro parent child hchild
      exact (hedges (parent, child) (mem_edges_iff.mpr hchild)).1
    · intro parent child grandchild hchild hgrandchild
      have hnext := (hedges (parent, child) (mem_edges_iff.mpr hchild)).2
        (child, grandchild) (mem_edges_iff.mpr hgrandchild) rfl
      exact mem_edges_iff.mp hnext

theorem closed_builtIn : builtIn.Closed :=
  closed_iff_edges.mpr (by decide +kernel)

/-- Under a closed table, and the built-in one is closed, no style is lost.  Each
dropped name has a later kept one that drops it by itself, and a block of names can
be resolved early at any place. -/
theorem closed_loses_no_style :
    builtIn.Closed ∧
      ∀ table : Table, table.Closed →
        (∀ (names : List String) (place : Nat) (dropped : Token),
          (table.mark names)[place]? = some (dropped, true) →
            ∃ (later : Nat) (kept : Token), place < later ∧
              (table.mark names)[later]? = some (kept, false) ∧
              table.resolve [dropped.raw, kept.raw] = [kept.raw]) ∧
        ∀ before block after : List String,
          table.resolve (before ++ table.resolve block ++ after) =
            table.resolve (before ++ block ++ after) := by
  refine ⟨closed_builtIn, fun table hclosed => ⟨?_, ?_⟩⟩
  · intro names place dropped hplace
    exact exists_kept_of_dropped hclosed hplace
  · exact resolve_append_resolve_append hclosed

theorem builtIn_keeps_end_of_chain :
    builtIn.Closed ∧
      (builtIn.mark ["pl::$1", "px::$2", "p::$3"])[0]? = some (Token.parse "pl::$1", true) ∧
      (∃ (later : Nat) (kept : Token), 0 < later ∧
        (builtIn.mark ["pl::$1", "px::$2", "p::$3"])[later]? = some (kept, false) ∧
        builtIn.resolve [(Token.parse "pl::$1").raw, kept.raw] = [kept.raw]) ∧
      builtIn.resolve (["pl::$1"] ++ builtIn.resolve ["px::$2", "p::$3"] ++ ["m::$4"]) =
        builtIn.resolve (["pl::$1"] ++ ["px::$2", "p::$3"] ++ ["m::$4"]) := by
  have hmark : (builtIn.mark ["pl::$1", "px::$2", "p::$3"])[0]? =
      some (Token.parse "pl::$1", true) := by
    decide +kernel
  obtain ⟨hdropped, hblocks⟩ := closed_loses_no_style.2 builtIn closed_builtIn
  exact ⟨closed_builtIn, hmark, hdropped _ 0 _ hmark, hblocks _ _ _⟩

/-- A table that is not closed can tell a resolved block from the block. -/
example :
    let table := collect [("a", ["b"]), ("b", ["c"])]
    table.resolve (["c::$1"] ++ table.resolve ["b::$2", "a::$3"]) = ["c::$1", "a::$3"] ∧
      table.resolve (["c::$1"] ++ ["b::$2", "a::$3"]) = ["a::$3"] := by
  decide +kernel

end Table

end ClassNames
