import ClassNames.Slot

/-!
# Ledgers

Conflicts are found in a single pass over the tokens in their order.  The ledger of
a pass knows for every slot the place of the last token that fills it, and the
places of all tokens that gave way to a later one.  A token that gave way stays on
record as the last one in its slot until another token fills the same slot.
-/

namespace ClassNames

/-- What a pass has found in the tokens so far. -/
structure Ledger where
  /-- The number of tokens, which is the place of the next one. -/
  length : Nat
  /-- The place of the last token in each slot. -/
  holders : Std.ExtTreeMap Slot Nat
  /-- The places of the tokens that gave way. -/
  superseded : Std.ExtTreeSet Nat

namespace Ledger

/-- The ledger before the first token. -/
def empty : Ledger := ⟨0, ∅, ∅⟩

/-- The places of the tokens that give way to the next one. -/
def displaced (table : Table) (ledger : Ledger) (token : Token) : List Nat :=
  (token.claims table).filterMap fun slot => ledger.holders[slot]?

/-- The ledger with the next token.  Other tokens give way to it before it is on
record itself, so a token whose group subsumes itself does not give way to itself. -/
def record (table : Table) (ledger : Ledger) (token : Token) : Ledger where
  length := ledger.length + 1
  holders :=
    match token.slot? with
    | some slot => ledger.holders.insert slot ledger.length
    | none => ledger.holders
  superseded := ledger.superseded.insertMany (ledger.displaced table token)

/-- The ledger of a whole pass. -/
def ofTokens (table : Table) (tokens : List Token) : Ledger :=
  tokens.foldl (record table) empty

end Ledger

end ClassNames
