import ClassNames.Ledger
import ClassNames.Notice

/-!
# Conflict resolution

A class name is superseded when a later one claims the slot that it fills.  One
pass over the names finds out which ones are, and the others are kept in their
order.  A superseded name still claims its slots.

`Supersedes` says the same thing of two tokens at a time, in terms of their parts
and without slots or a ledger.  `Reaches` spells out the qualifiers in which the pass
looks for a child.
-/

namespace ClassNames

namespace Token

/-- The group of the token subsumes one that stands at the end of the qualifier, behind
the modifiers of the token and a separator, or alone if the token has no modifiers. -/
def Reaches (table : Table) (token : Token) (qualifier : String) : Prop :=
  ∃ group, token.group? = some group ∧
    ∃ child, table.Subsumes group child ∧
      ((token.modifiers = "" ∧ qualifier = child) ∨
        (token.modifiers ≠ "" ∧
          qualifier = token.modifiers ++ separator.toString ++ child))

/-- The later token takes the place of the earlier one: both are styles and the
later one has the same qualifier, or reaches it through its group; or both set the
same property under the same qualifier. -/
def Supersedes (table : Table) (later earlier : Token) : Prop :=
  (later.kind.isStyle ∧ earlier.kind.isStyle ∧
    (earlier.qualifier = later.qualifier ∨ later.Reaches table earlier.qualifier)) ∨
  (later.kind = .property ∧ earlier.kind = .property ∧
    earlier.qualifier = later.qualifier ∧ earlier.propertyKey? = later.propertyKey?)

/-- The pass looks for exactly the qualifiers that are reached. -/
theorem mem_childQualifiers_iff_reaches {table : Table} {token : Token} {qualifier : String} :
    qualifier ∈ token.childQualifiers table ↔ token.Reaches table qualifier := by
  rw [mem_childQualifiers_iff, Reaches]
  simp only [eq_qualify_iff]

instance (table : Table) (token : Token) (qualifier : String) :
    Decidable (token.Reaches table qualifier) :=
  decidable_of_decidable_of_iff mem_childQualifiers_iff_reaches

instance (table : Table) (later earlier : Token) : Decidable (Supersedes table later earlier) :=
  inferInstanceAs (Decidable (_ ∨ _))

end Token

namespace Table

/-- The later class name supersedes the earlier one. -/
def Overrides (table : Table) (later earlier : String) : Prop :=
  (Token.parse later).Supersedes table (Token.parse earlier)

instance (table : Table) (later earlier : String) : Decidable (table.Overrides later earlier) :=
  inferInstanceAs (Decidable (Token.Supersedes _ _ _))

/-- Each class name, read, with the answer whether a later one supersedes it. -/
def mark (table : Table) (names : List String) : List (Token × Bool) :=
  let tokens := names.map Token.parse
  let ledger := Ledger.ofTokens table tokens
  tokens.mapIdx fun place token => (token, ledger.superseded.contains place)

/-- The class names that no later one supersedes, in order. -/
def resolve (table : Table) (names : List String) : List String :=
  ((table.mark names).filter fun (_, superseded) => !superseded).map fun (token, _) =>
    token.raw

/-- The surviving class names with single spaces between them. -/
def resolveToText (table : Table) (names : List String) : String :=
  " ".intercalate (table.resolve names)

/-- The notices of `resolve`: first the names with more than one divider, then the
dropped ones. -/
def resolveNotices (table : Table) (names : List String) : List Notice :=
  (names.filter Token.hasRepeatedDivider).map Notice.repeatedDivider ++
    ((table.mark names).filter Prod.snd).map fun (token, _) => Notice.dropped token.raw

end Table

end ClassNames
