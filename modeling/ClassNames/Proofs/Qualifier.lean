import ClassNames.Proofs.Reading
import ClassNames.Slot

/-!
# Taking qualifiers apart and putting them together

Qualifying a group without separators can be undone: the last segment is the group
and what stands before it are the modifiers, also when there are none.
-/

namespace ClassNames

namespace Token

theorem splitQualifier_eq_of_cut {qualifier : String} {before after : List Char}
    (hcut : Text.cutLast? separator qualifier.toList = some (before, after)) :
    splitQualifier qualifier = (String.ofList before, String.ofList after) := by
  rw [splitQualifier, hcut]

theorem splitQualifier_of_not_mem {qualifier : String}
    (hfree : separator ∉ qualifier.toList) : splitQualifier qualifier = ("", qualifier) := by
  rw [splitQualifier, Text.cutLast?_eq_none_iff.mpr hfree]

theorem splitQualifier_qualify (modifiers : String) {group : String}
    (hfree : separator ∉ group.toList) :
    splitQualifier (qualify modifiers group) = (modifiers, group) := by
  rw [qualify]
  split
  · next hempty =>
    rw [splitQualifier_of_not_mem hfree, String.isEmpty_iff.mp hempty]
  · have hcut : Text.cutLast? separator (modifiers ++ separator.toString ++ group).toList =
        some (modifiers.toList, group.toList) := by
      rw [Text.cutLast?_eq_some_iff]
      exact ⟨by simp, hfree⟩
    rw [splitQualifier_eq_of_cut hcut, String.ofList_toList, String.ofList_toList]

theorem group?_eq_some_iff {token : Token} {group : String} :
    token.group? = some group ↔
      token.qualifier ≠ "" ∧ (splitQualifier token.qualifier).2 = group := by
  rw [group?]
  by_cases hempty : token.qualifier = ""
  · simp [hempty]
  · simp [hempty, String.isEmpty_iff]

theorem group?_eq_none_iff {token : Token} : token.group? = none ↔ token.qualifier = "" := by
  rw [group?]
  by_cases hempty : token.qualifier = ""
  · simp [hempty]
  · simp [hempty, String.isEmpty_iff]

theorem group?_congr {left right : Token} (heq : left.qualifier = right.qualifier) :
    left.group? = right.group? := by
  rw [group?, group?, heq]

theorem modifiers_congr {left right : Token} (heq : left.qualifier = right.qualifier) :
    left.modifiers = right.modifiers := by
  rw [modifiers, modifiers, heq]

theorem childQualifiers_congr (table : Table) {left right : Token}
    (heq : left.qualifier = right.qualifier) :
    left.childQualifiers table = right.childQualifiers table := by
  rw [childQualifiers, childQualifiers, group?_congr heq, modifiers_congr heq]

end Token

namespace Table

/-- Every group that a group subsumes is one segment. -/
def SeparatorFree (table : Table) : Prop :=
  ∀ parent child, table.Subsumes parent child → Token.separator ∉ child.toList

end Table

namespace Token

/-- A qualifier that a style reaches through a child falls apart into the modifiers of
the style and that child. -/
theorem exists_child_of_mem_childQualifiers {table : Table} (hfree : table.SeparatorFree)
    {token : Token} {qualifier : String} (hmem : qualifier ∈ token.childQualifiers table) :
    ∃ group child, token.group? = some group ∧ table.Subsumes group child ∧
      qualifier = qualify token.modifiers child ∧
      splitQualifier qualifier = (token.modifiers, child) := by
  obtain ⟨group, hgroup, child, hchild, rfl⟩ := mem_childQualifiers_iff.mp hmem
  exact ⟨group, child, hgroup, hchild, rfl,
    splitQualifier_qualify _ (hfree group child hchild)⟩

end Token

end ClassNames
