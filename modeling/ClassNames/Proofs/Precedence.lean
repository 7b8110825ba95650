import ClassNames.Proofs.Qualifier
import ClassNames.Proofs.Survival

/-!
# Precedence between groups

Of two styles with different qualifiers at most one removes the other, whatever their
order.  If each reached the other through a child, both would stand under the same
modifiers and their groups would subsume each other, and a table in which two different
groups do so is refused.  The check asks for no more than that: in entries that it
refuses, the two groups that it names remove each other.
-/

namespace ClassNames

open Token

namespace Table

variable {table : Table}

/-- A style that reaches another one through a child stands under the same modifiers, and
the group of the other one is that child. -/
theorem subsumes_of_mem_childQualifiers (hfree : table.SeparatorFree) {later earlier : Token}
    {own : String} (hown : earlier.group? = some own)
    (hmem : earlier.qualifier ∈ later.childQualifiers table) :
    ∃ group, later.group? = some group ∧ table.Subsumes group own ∧
      earlier.qualifier = qualify later.modifiers own ∧
      earlier.modifiers = later.modifiers := by
  obtain ⟨group, child, hgroup, hchild, hreach, hsplit⟩ :=
    exists_child_of_mem_childQualifiers hfree hmem
  obtain rfl : child = own := by
    rw [← (group?_eq_some_iff.mp hown).2, hsplit]
  refine ⟨group, hgroup, hchild, hreach, ?_⟩
  rw [modifiers, hsplit]

/-- Two styles that reach each other through children have the same qualifier. -/
theorem qualifier_eq_of_mem_childQualifiers (hvalid : table.Valid)
    (hfree : table.SeparatorFree) {left right : Token}
    (hleft : left.qualifier ∈ right.childQualifiers table)
    (hright : right.qualifier ∈ left.childQualifiers table) :
    left.qualifier = right.qualifier := by
  obtain ⟨leftGroup, -, hleftGroup, -⟩ := exists_child_of_mem_childQualifiers hfree hright
  obtain ⟨rightGroup, hrightGroup, hforward, hreach, hmodifiers⟩ :=
    subsumes_of_mem_childQualifiers hfree hleftGroup hleft
  obtain ⟨own, hown, hback, hreach', -⟩ :=
    subsumes_of_mem_childQualifiers hfree hrightGroup hright
  obtain rfl : own = leftGroup := Option.some.inj (hown.symm.trans hleftGroup)
  -- Different groups would be a pair that the table must not have.
  obtain rfl : own = rightGroup := by
    apply Classical.byContradiction
    intro hne
    exact hvalid own rightGroup hne hback hforward
  rw [hreach, hreach', hmodifiers]

theorem overrides_iff_of_qualifier_ne {later earlier : String}
    (hstyle : (parse earlier).kind.isStyle)
    (hne : (parse earlier).qualifier ≠ (parse later).qualifier) :
    table.Overrides later earlier ↔
      (parse later).kind.isStyle ∧
        (parse earlier).qualifier ∈ (parse later).childQualifiers table := by
  rw [overrides_iff_of_isStyle hstyle, or_iff_right hne]

theorem Overrides.not_reciprocal (hvalid : table.Valid) (hfree : table.SeparatorFree)
    {left right : String} (hleft : (parse left).kind.isStyle)
    (hright : (parse right).kind.isStyle)
    (hne : (parse left).qualifier ≠ (parse right).qualifier)
    (hover : table.Overrides right left) : ¬ table.Overrides left right := by
  rw [overrides_iff_of_qualifier_ne hleft hne] at hover
  rw [overrides_iff_of_qualifier_ne hright (Ne.symm hne)]
  rintro ⟨-, hback⟩
  exact hne (qualifier_eq_of_mem_childQualifiers hvalid hfree hover.2 hback)

/-- Under an accepted table whose groups are single segments, a style that removes one
with another qualifier is not removed by it. -/
theorem removal_not_reciprocal {entries : List (String × List String)}
    (haccepted : Table.ofList entries = .ok table) (hfree : table.SeparatorFree)
    {left right : String} (hleft : (parse left).kind.isStyle)
    (hright : (parse right).kind.isStyle)
    (hne : (parse left).qualifier ≠ (parse right).qualifier) :
    (left ∉ table.resolve [left, right] → table.resolve [right, left] = [right, left]) ∧
      ¬ (left ∉ table.resolve [left, right] ∧ right ∉ table.resolve [right, left]) := by
  have hvalid := valid_of_ofList_eq_ok haccepted
  have hkept (hgone : left ∉ table.resolve [left, right]) :
      table.resolve [right, left] = [right, left] := by
    have hover : table.Overrides right left := by
      apply Classical.byContradiction
      intro hnot
      rw [resolve_pair, if_neg hnot] at hgone
      simp at hgone
    have hback := hover.not_reciprocal hvalid hfree hleft hright hne
    rw [resolve_pair, if_neg hback]
  refine ⟨hkept, ?_⟩
  rintro ⟨hgone, hback⟩
  rw [hkept hgone] at hback
  simp at hback

/-- The two steps of a longer cycle are accepted, and only one way round is removed. -/
theorem removal_not_reciprocal_cycle :
    let entries := [("a", ["b"]), ("b", ["c", "b"]), ("c", ["a"])]
    let table := collect entries
    ofList entries = .ok table ∧ table.SeparatorFree ∧
      "md:a::$1" ∉ table.resolve ["md:a::$1", "md:c::[2px]"] ∧
      table.resolve ["md:c::[2px]", "md:a::$1"] = ["md:c::[2px]", "md:a::$1"] := by
  intro entries table
  have haccepted : ofList entries = .ok table :=
    ofList_eq_ok_of_valid (reciprocal?_eq_none_iff.mp (by decide +kernel))
  have hfree : table.SeparatorFree := by
    have hedges : ∀ edge ∈ table.edges, separator ∉ edge.2.toList := by decide +kernel
    exact fun parent child hchild => hedges (parent, child) (mem_edges_iff.mpr hchild)
  have hgone : "md:a::$1" ∉ table.resolve ["md:a::$1", "md:c::[2px]"] := by decide +kernel
  exact ⟨haccepted, hfree, hgone,
    (removal_not_reciprocal haccepted hfree (by decide) (by decide) (by decide)).1 hgone⟩

/-! ## Refused entries -/

theorem subsumes_of_ofList_eq_error {entries : List (String × List String)}
    {parent child : String} (hrefused : ofList entries = .error (.reciprocal parent child)) :
    parent ≠ child ∧ (collect entries).Subsumes parent child ∧
      (collect entries).Subsumes child parent := by
  unfold ofList at hrefused
  split at hrefused
  · next first second hfound =>
    cases hrefused
    exact subsumes_of_reciprocal? hfound
  · cases hrefused

/-- A style without modifiers overrides those of the groups that its own subsumes. -/
theorem overrides_of_subsumes {parent child later earlier : String}
    (hlater : (parse later).kind.isStyle) (hearlier : (parse earlier).kind.isStyle)
    (hparent : (parse later).qualifier = parent) (hchild : (parse earlier).qualifier = child)
    (hfree : separator ∉ parent.toList) (hne : parent ≠ "")
    (hsub : table.Subsumes parent child) : table.Overrides later earlier := by
  have hsplit : splitQualifier (parse later).qualifier = ("", parent) := by
    rw [hparent, splitQualifier_of_not_mem hfree]
  rw [overrides_iff_of_isStyle hearlier, mem_childQualifiers_iff]
  refine ⟨hlater, Or.inr ⟨parent, ?_, child, hsub, ?_⟩⟩
  · rw [group?_eq_some_iff, hsplit]
    exact ⟨hparent ▸ hne, rfl⟩
  · rw [modifiers, hsplit, hchild]
    rfl

/-- The check refuses no more than it has to: if the two groups that it names can be
groups of class names, then each of them would remove the other. -/
theorem exists_reciprocal_removal {entries : List (String × List String)}
    {parent child : String} (hrefused : ofList entries = .error (.reciprocal parent child))
    (hparent : parent ≠ "" ∧ separator ∉ parent.toList)
    (hchild : child ≠ "" ∧ separator ∉ child.toList) :
    ∃ left right, (parse left).qualifier = parent ∧ (parse right).qualifier = child ∧
      (collect entries).resolve [left, right] = [right] ∧
      (collect entries).resolve [right, left] = [left] := by
  obtain ⟨-, hforward, hback⟩ := subsumes_of_ofList_eq_error hrefused
  obtain ⟨left, hleft, hleftGroup⟩ :=
    exists_parse_of_isQualifier (isQualifier_of_not_mem hparent.2)
  obtain ⟨right, hright, hrightGroup⟩ :=
    exists_parse_of_isQualifier (isQualifier_of_not_mem hchild.2)
  have hover : (collect entries).Overrides right left :=
    overrides_of_subsumes hright hleft hrightGroup hleftGroup hchild.2 hchild.1 hback
  have hover' : (collect entries).Overrides left right :=
    overrides_of_subsumes hleft hright hleftGroup hrightGroup hparent.2 hparent.1 hforward
  refine ⟨left, right, hleftGroup, hrightGroup, ?_, ?_⟩
  · rw [resolve_pair, if_pos hover]
  · rw [resolve_pair, if_pos hover']

end Table

end ClassNames
