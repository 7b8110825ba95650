import ClassNames.Ledger

/-!
# What a ledger knows

The ledger of a pass remembers one place for each slot, although many tokens may
have filled the slot.  Nothing is lost by that.  A token that is no longer the last
one in its slot has given way already, because whatever fills a slot also claims
it.  So the places that a whole pass marks are exactly those of the tokens whose
slot some later token claims.
-/

namespace ClassNames

/-- The later token claims the slot that the earlier one fills. -/
def Token.Displaces (table : Table) (later earlier : Token) : Prop :=
  ∃ slot, earlier.slot? = some slot ∧ slot ∈ later.claims table

namespace Ledger

/-- The token at `place` fills the slot and no token after it does. -/
def IsHolder (tokens : List Token) (slot : Slot) (place : Nat) : Prop :=
  (∃ token, tokens[place]? = some token ∧ token.slot? = some slot) ∧
    ∀ later ∈ tokens.drop (place + 1), later.slot? ≠ some slot

/-- Some token after the one at `place` displaces it. -/
def GivesWay (table : Table) (tokens : List Token) (place : Nat) : Prop :=
  ∃ earlier, tokens[place]? = some earlier ∧
    ∃ later ∈ tokens.drop (place + 1), later.Displaces table earlier

variable {table : Table}

theorem givesWay_cons_zero {token : Token} {tokens : List Token} :
    GivesWay table (token :: tokens) 0 ↔ ∃ later ∈ tokens, later.Displaces table token := by
  simp [GivesWay]

theorem givesWay_cons_succ {token : Token} {tokens : List Token}
    {place : Nat} :
    GivesWay table (token :: tokens) (place + 1) ↔ GivesWay table tokens place := by
  simp [GivesWay]

/-- The last token of a list holds its slot, and everyone else holds what they held
unless that is the same slot. -/
theorem isHolder_concat {tokens : List Token} {token : Token} {slot : Slot} {place : Nat} :
    IsHolder (tokens ++ [token]) slot place ↔
      (token.slot? = some slot ∧ place = tokens.length) ∨
        (token.slot? ≠ some slot ∧ IsHolder tokens slot place) := by
  rcases Nat.lt_trichotomy place tokens.length with hlt | rfl | hgt
  · have hdrop : (tokens ++ [token]).drop (place + 1) = tokens.drop (place + 1) ++ [token] :=
      List.drop_append_of_le_length hlt
    simp only [IsHolder, hdrop, List.getElem?_append_left hlt, List.forall_mem_append,
      List.forall_mem_singleton]
    grind
  · simp [IsHolder]
  · have hnone : (tokens ++ [token])[place]? = none := by
      rw [List.getElem?_eq_none_iff, List.length_append, List.length_singleton]
      exact hgt
    have hnone' : tokens[place]? = none := List.getElem?_eq_none (Nat.le_of_lt hgt)
    simp only [IsHolder, hnone, hnone']
    grind

/-- One more token at the end makes those give way whose slot it claims. -/
theorem givesWay_concat {tokens : List Token} {token : Token}
    {place : Nat} :
    GivesWay table (tokens ++ [token]) place ↔
      GivesWay table tokens place ∨
        ∃ earlier, tokens[place]? = some earlier ∧ token.Displaces table earlier := by
  by_cases hlt : place < tokens.length
  · have hdrop : (tokens ++ [token]).drop (place + 1) = tokens.drop (place + 1) ++ [token] :=
      List.drop_append_of_le_length hlt
    simp only [GivesWay, hdrop, List.getElem?_append_left hlt, List.mem_append,
      List.mem_singleton]
    grind
  · have hdrop : (tokens ++ [token]).drop (place + 1) = [] :=
      List.drop_eq_nil_of_le (by simp; omega)
    have hdrop' : tokens.drop (place + 1) = [] := List.drop_eq_nil_of_le (by omega)
    have hnone : tokens[place]? = none := List.getElem?_eq_none (by omega)
    simp [GivesWay, hdrop, hdrop', hnone]

/-- A token that lost its slot to a later one has given way. -/
theorem givesWay_of_not_isHolder {tokens : List Token} {token : Token}
    {slot : Slot} {place : Nat} (htoken : tokens[place]? = some token)
    (hslot : token.slot? = some slot) (hholder : ¬ IsHolder tokens slot place) :
    GivesWay table tokens place := by
  have hlater : ∃ later ∈ tokens.drop (place + 1), later.slot? = some slot := by
    apply Classical.byContradiction
    intro hnone
    apply hholder
    refine ⟨⟨token, htoken, hslot⟩, ?_⟩
    intro later hmem hsame
    exact hnone ⟨later, hmem, hsame⟩
  obtain ⟨later, hmem, hsame⟩ := hlater
  exact ⟨token, htoken, later, hmem, slot, hslot, Token.slot?_mem_claims hsame⟩

/-- The ledger says of the tokens what it should. -/
structure Tracks (table : Table) (ledger : Ledger) (tokens : List Token) : Prop where
  length_eq : ledger.length = tokens.length
  holders_iff : ∀ slot place,
    ledger.holders[slot]? = some place ↔ IsHolder tokens slot place
  superseded_iff : ∀ place, place ∈ ledger.superseded ↔ GivesWay table tokens place

theorem tracks_empty (table : Table) : empty.Tracks table [] where
  length_eq := rfl
  holders_iff slot place := by simp [empty, IsHolder]
  superseded_iff place := by simp [empty, GivesWay]

theorem mem_displaced_iff {ledger : Ledger} {tokens : List Token}
    {token : Token} {place : Nat} (htracks : ledger.Tracks table tokens) :
    place ∈ ledger.displaced table token ↔
      ∃ slot ∈ token.claims table, IsHolder tokens slot place := by
  simp only [displaced, List.mem_filterMap, htracks.holders_iff]

/-- The step of the pass.  Only holders are marked, but everyone else whose slot the
token claims was marked before. -/
theorem Tracks.record {ledger : Ledger} {tokens : List Token}
    (htracks : ledger.Tracks table tokens) (token : Token) :
    (ledger.record table token).Tracks table (tokens ++ [token]) where
  length_eq := by
    rw [Ledger.record, htracks.length_eq]
    simp
  holders_iff slot place := by
    rw [isHolder_concat]
    cases hslot : token.slot? with
    | none =>
      simp only [Ledger.record, hslot]
      rw [htracks.holders_iff]
      simp
    | some own =>
      simp only [Ledger.record, hslot, Std.ExtTreeMap.getElem?_insert,
        Std.LawfulEqCmp.compare_eq_iff_eq, htracks.length_eq]
      by_cases hsame : own = slot
      · simp [hsame, eq_comm]
      · simp [hsame, htracks.holders_iff]
  superseded_iff place := by
    have hmem : place ∈ (ledger.record table token).superseded ↔
        place ∈ ledger.superseded ∨ place ∈ ledger.displaced table token := by
      simp [Ledger.record]
    rw [hmem, givesWay_concat, htracks.superseded_iff, mem_displaced_iff htracks]
    constructor
    · rintro (hbefore | ⟨slot, hclaim, ⟨earlier, hearlier, hslot⟩, -⟩)
      · exact Or.inl hbefore
      · exact Or.inr ⟨earlier, hearlier, slot, hslot, hclaim⟩
    · rintro (hbefore | ⟨earlier, hearlier, slot, hslot, hclaim⟩)
      · exact Or.inl hbefore
      · by_cases hholder : IsHolder tokens slot place
        · exact Or.inr ⟨slot, hclaim, hholder⟩
        · exact Or.inl (givesWay_of_not_isHolder hearlier hslot hholder)

/-- The run of the pass, from any ledger that tracks the tokens before. -/
theorem Tracks.foldl_record {ledger : Ledger} {before : List Token}
    (htracks : ledger.Tracks table before) (tokens : List Token) :
    (tokens.foldl (Ledger.record table) ledger).Tracks table (before ++ tokens) := by
  induction tokens generalizing ledger before with
  | nil => simpa using htracks
  | cons token tokens ih =>
    have hstep := ih (htracks.record token)
    rwa [List.append_assoc, List.singleton_append] at hstep

theorem tracks_ofTokens (table : Table) (tokens : List Token) :
    (ofTokens table tokens).Tracks table tokens :=
  (tracks_empty table).foldl_record tokens

/-- A pass marks exactly the tokens that a later one displaces. -/
theorem mem_superseded_ofTokens_iff {tokens : List Token} {place : Nat} :
    place ∈ (ofTokens table tokens).superseded ↔ GivesWay table tokens place :=
  (tracks_ofTokens table tokens).superseded_iff place

end Ledger

end ClassNames
