import ClassNames.Table
import ClassNames.Token

/-!
# Slots

Two class names conflict when they want the same slot.  A style slot belongs to a
qualifier, and a property slot to a qualifier together with the property.  A token
fills at most one slot, and it claims that one and, if it is a style of a group,
the style slots of the groups that its group subsumes, under the same modifiers.
-/

namespace ClassNames

/-- The style of a qualifier, or one property under it. -/
structure Slot where
  qualifier : String
  /-- The property, or `none` for the style. -/
  key? : Option String
deriving DecidableEq, Repr

namespace Slot

instance : Ord Slot where
  compare := compareLex (compareOn Slot.qualifier) (compareOn Slot.key?)

instance : Std.TransOrd Slot :=
  inferInstanceAs (Std.TransCmp (compareLex (compareOn Slot.qualifier) (compareOn Slot.key?)))

instance : Std.LawfulEqOrd Slot where
  eq_of_compare {left right} h := by
    obtain ⟨hqualifier, hkey⟩ := Ordering.then_eq_eq.mp h
    cases left
    cases right
    exact congr (congrArg Slot.mk (Std.LawfulEqCmp.eq_of_compare hqualifier))
      (Std.LawfulEqCmp.eq_of_compare hkey)

/-- The style slot of a qualifier. -/
def style (qualifier : String) : Slot := ⟨qualifier, none⟩

/-- The slot of a property under a qualifier. -/
def property (qualifier key : String) : Slot := ⟨qualifier, some key⟩

end Slot

namespace Token

/-- The slot that the token fills.  Plain tokens fill none. -/
def slot? (token : Token) : Option Slot :=
  if token.kind.isStyle then some (.style token.qualifier)
  else token.propertyKey?.map (.property token.qualifier)

/-- The qualifiers that differ from the one of the token in the group alone, which
is a child of the group of the token. -/
def childQualifiers (table : Table) (token : Token) : List String :=
  match token.group? with
  | some group => (table.children group).toList.map (qualify token.modifiers)
  | none => []

/-- The slots that the token takes from the tokens before it. -/
def claims (table : Table) (token : Token) : List Slot :=
  if token.kind.isStyle then
    .style token.qualifier :: (token.childQualifiers table).map .style
  else token.slot?.toList

theorem propertyKey?_eq_none_of_isStyle {token : Token} (hstyle : token.kind.isStyle) :
    token.propertyKey? = none := by
  rw [propertyKey?]
  cases hkind : token.kind with
  | named | argument | plain => rfl
  | property =>
    rw [hkind] at hstyle
    cases hstyle

theorem slot?_eq_style_iff {token : Token} {qualifier : String} :
    token.slot? = some (.style qualifier) ↔
      token.kind.isStyle ∧ qualifier = token.qualifier := by
  rw [slot?]
  by_cases hstyle : token.kind.isStyle
  · simp [hstyle, Slot.style, eq_comm]
  · simp [hstyle, Slot.style, Slot.property]

theorem slot?_eq_property_iff {token : Token} {qualifier key : String} :
    token.slot? = some (.property qualifier key) ↔
      token.propertyKey? = some key ∧ qualifier = token.qualifier := by
  rw [slot?]
  by_cases hstyle : token.kind.isStyle
  · simp [hstyle, Slot.style, Slot.property, propertyKey?_eq_none_of_isStyle hstyle]
  · rw [if_neg hstyle, Option.map_eq_some_iff]
    constructor
    · rintro ⟨own, hown, hsame⟩
      obtain ⟨rfl, hkeys⟩ := Slot.mk.inj hsame
      exact ⟨Option.some.inj hkeys ▸ hown, rfl⟩
    · rintro ⟨hkey, rfl⟩
      exact ⟨key, hkey, rfl⟩

theorem mem_childQualifiers_iff {table : Table} {token : Token} {qualifier : String} :
    qualifier ∈ token.childQualifiers table ↔
      ∃ group, token.group? = some group ∧
        ∃ child, table.Subsumes group child ∧
          qualifier = qualify token.modifiers child := by
  unfold childQualifiers
  cases token.group? with
  | none => simp
  | some group => simp [Table.Subsumes, eq_comm]

theorem style_mem_claims_iff {table : Table} {token : Token} {qualifier : String} :
    .style qualifier ∈ token.claims table ↔
      token.kind.isStyle ∧
        (qualifier = token.qualifier ∨ qualifier ∈ token.childQualifiers table) := by
  rw [claims]
  by_cases hstyle : token.kind.isStyle
  · simp [hstyle, Slot.style]
  · simp [hstyle, slot?_eq_style_iff]

theorem property_mem_claims_iff {table : Table} {token : Token} {qualifier key : String} :
    .property qualifier key ∈ token.claims table ↔
      token.propertyKey? = some key ∧ qualifier = token.qualifier := by
  rw [claims]
  by_cases hstyle : token.kind.isStyle
  · simp [hstyle, Slot.style, Slot.property, propertyKey?_eq_none_of_isStyle hstyle]
  · simp [hstyle, slot?_eq_property_iff]

theorem slot?_mem_claims {table : Table} {token : Token} {slot : Slot}
    (h : token.slot? = some slot) : slot ∈ token.claims table := by
  unfold slot? at h
  unfold claims
  split at h
  · next hstyle =>
    cases h
    simp [hstyle]
  · next hstyle => simp [hstyle, slot?, h]

end Token

end ClassNames
