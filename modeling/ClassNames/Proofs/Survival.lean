import ClassNames.Proofs.Ledger
import ClassNames.Proofs.Reading
import ClassNames.Resolve

/-!
# Which class names survive

A class name survives exactly when no later name overrides it.  Whether the later
one survives itself makes no difference.  So a name at the front decides nothing
about the names after it, and everything about a list follows by going down it.
-/

namespace ClassNames

namespace Token

theorem displaces_iff {table : Table} {later earlier : Token} :
    later.Displaces table earlier ↔
      (later.kind.isStyle ∧ earlier.kind.isStyle ∧
        (earlier.qualifier = later.qualifier ∨
          earlier.qualifier ∈ later.childQualifiers table)) ∨
      (earlier.qualifier = later.qualifier ∧
        ∃ key, earlier.propertyKey? = some key ∧ later.propertyKey? = some key) := by
  constructor
  · rintro ⟨⟨qualifier, none | key⟩, hslot, hclaim⟩
    · obtain ⟨hearlier, rfl⟩ := slot?_eq_style_iff.mp hslot
      obtain ⟨hlater, hqualifier⟩ := style_mem_claims_iff.mp hclaim
      exact Or.inl ⟨hlater, hearlier, hqualifier⟩
    · obtain ⟨hearlier, rfl⟩ := slot?_eq_property_iff.mp hslot
      obtain ⟨hlater, hqualifier⟩ := property_mem_claims_iff.mp hclaim
      exact Or.inr ⟨hqualifier, key, hearlier, hlater⟩
  · rintro (⟨hlater, hearlier, hqualifier⟩ | ⟨hqualifier, key, hearlier, hlater⟩)
    · exact ⟨.style earlier.qualifier, slot?_eq_style_iff.mpr ⟨hearlier, rfl⟩,
        style_mem_claims_iff.mpr ⟨hlater, hqualifier⟩⟩
    · exact ⟨.property earlier.qualifier key, slot?_eq_property_iff.mpr ⟨hearlier, rfl⟩,
        property_mem_claims_iff.mpr ⟨hlater, hqualifier⟩⟩

/-- Slots say the same as the comparison of two names in terms of their parts. -/
theorem displaces_parse_iff {table : Table} {later earlier : String} :
    (parse later).Displaces table (parse earlier) ↔ table.Overrides later earlier := by
  rw [displaces_iff, Table.Overrides, Supersedes, mem_childQualifiers_iff_reaches]
  apply or_congr Iff.rfl
  constructor
  · rintro ⟨hqualifier, key, hearlier, hlater⟩
    exact ⟨kind_eq_property_of_propertyKey? hlater, kind_eq_property_of_propertyKey? hearlier,
      hqualifier, hearlier.trans hlater.symm⟩
  · rintro ⟨-, hearlier, hqualifier, hkeys⟩
    obtain ⟨key, hkey⟩ := exists_propertyKey?_parse hearlier
    exact ⟨hqualifier, key, hkey, hkeys ▸ hkey⟩

end Token

namespace Table

/-- None of the later names overrides the name. -/
def Survives (table : Table) (later : List String) (name : String) : Prop :=
  ∀ other ∈ later, ¬ table.Overrides other name

instance (table : Table) (later : List String) (name : String) :
    Decidable (table.Survives later name) :=
  inferInstanceAs (Decidable (∀ other ∈ later, ¬ table.Overrides other name))

variable {table : Table}

theorem overrides_iff_of_isStyle {later earlier : String}
    (hstyle : (Token.parse earlier).kind.isStyle) :
    table.Overrides later earlier ↔
      (Token.parse later).kind.isStyle ∧
        ((Token.parse earlier).qualifier = (Token.parse later).qualifier ∨
          (Token.parse earlier).qualifier ∈ (Token.parse later).childQualifiers table) := by
  have hproperty : (Token.parse earlier).kind ≠ .property := by
    intro hkind
    rw [hkind] at hstyle
    cases hstyle
  simp [Overrides, Token.Supersedes, Token.mem_childQualifiers_iff_reaches, hstyle, hproperty]

@[simp]
theorem survives_nil (table : Table) (name : String) : table.Survives [] name :=
  fun _ hmem => nomatch hmem

@[simp]
theorem survives_cons {other name : String} {later : List String} :
    table.Survives (other :: later) name ↔
      ¬ table.Overrides other name ∧ table.Survives later name :=
  List.forall_mem_cons

theorem not_survives_iff {later : List String} {name : String} :
    ¬ table.Survives later name ↔ ∃ other ∈ later, table.Overrides other name := by
  simp [Survives]

theorem survives_append {left right : List String} {name : String} :
    table.Survives (left ++ right) name ↔
      table.Survives left name ∧ table.Survives right name :=
  List.forall_mem_append

theorem Survives.mono {later fewer : List String} {name : String}
    (hsurvives : table.Survives later name) (hsubset : fewer ⊆ later) :
    table.Survives fewer name :=
  fun other hmem => hsurvives other (hsubset hmem)

@[simp]
theorem mark_nil (table : Table) : table.mark [] = [] := rfl

/-- The pass answers for each name whether the names after it let it survive. -/
theorem mark_cons (table : Table) (name : String) (names : List String) :
    table.mark (name :: names) =
      (Token.parse name, decide (¬ table.Survives names name)) :: table.mark names := by
  have hhead : (Ledger.ofTokens table ((name :: names).map Token.parse)).superseded.contains 0 =
      decide (¬ table.Survives names name) := by
    rw [Bool.eq_iff_iff, Std.ExtTreeSet.contains_iff_mem, Ledger.mem_superseded_ofTokens_iff,
      List.map_cons, Ledger.givesWay_cons_zero, decide_eq_true_iff, not_survives_iff]
    constructor
    · rintro ⟨token, hread, hdisplaces⟩
      obtain ⟨later, hmem, rfl⟩ := List.mem_map.mp hread
      exact ⟨later, hmem, Token.displaces_parse_iff.mp hdisplaces⟩
    · rintro ⟨later, hmem, hover⟩
      exact ⟨Token.parse later, List.mem_map_of_mem hmem, Token.displaces_parse_iff.mpr hover⟩
  have htail (place : Nat) :
      (Ledger.ofTokens table ((name :: names).map Token.parse)).superseded.contains (place + 1) =
        (Ledger.ofTokens table (names.map Token.parse)).superseded.contains place := by
    rw [Bool.eq_iff_iff, Std.ExtTreeSet.contains_iff_mem, Std.ExtTreeSet.contains_iff_mem,
      Ledger.mem_superseded_ofTokens_iff, Ledger.mem_superseded_ofTokens_iff, List.map_cons,
      Ledger.givesWay_cons_succ]
  simp only [mark]
  rw [List.map_cons, List.mapIdx_cons, ← List.map_cons, hhead]
  simp only [htail]

theorem getElem?_mark (table : Table) (names : List String) (place : Nat) :
    (table.mark names)[place]? = names[place]?.map fun name =>
      (Token.parse name, decide (¬ table.Survives (names.drop (place + 1)) name)) := by
  induction names generalizing place with
  | nil => rfl
  | cons name names ih =>
    rw [mark_cons]
    cases place with
    | zero => rfl
    | succ place =>
      rw [List.getElem?_cons_succ, List.getElem?_cons_succ, ih]
      rfl

theorem mark_drop (table : Table) (names : List String) (count : Nat) :
    table.mark (names.drop count) = (table.mark names).drop count := by
  induction names generalizing count with
  | nil => simp
  | cons name names ih =>
    cases count with
    | zero => rfl
    | succ count => rw [mark_cons, List.drop_succ_cons, List.drop_succ_cons, ih]

@[simp]
theorem resolve_nil (table : Table) : table.resolve [] = [] := rfl

theorem resolve_cons (table : Table) (name : String) (names : List String) :
    table.resolve (name :: names) =
      if table.Survives names name then name :: table.resolve names
      else table.resolve names := by
  rw [resolve, mark_cons]
  by_cases hkept : table.Survives names name
  · simp [resolve, hkept]
  · simp [resolve, hkept]

theorem resolve_pair (table : Table) (earlier later : String) :
    table.resolve [earlier, later] =
      if table.Overrides later earlier then [later] else [earlier, later] := by
  rw [resolve_cons, resolve_cons, resolve_nil, if_pos (table.survives_nil later)]
  by_cases hover : table.Overrides later earlier
  · rw [if_neg (by simp [hover]), if_pos hover]
  · rw [if_pos (by simp [hover]), if_neg hover]

/-- The pass over all names finds what comparing every name with every later one
finds: the survivors are the names, in order, that no name at a later place
overrides. -/
theorem resolve_eq_filter_survives (table : Table) (names : List String) :
    table.resolve names =
      (names.zipIdx.filter fun entry =>
        table.Survives (names.drop (entry.2 + 1)) entry.1).map Prod.fst := by
  induction names with
  | nil => rfl
  | cons name names ih =>
    have htail : ((names.zipIdx 1).filter fun entry =>
          table.Survives ((name :: names).drop (entry.2 + 1)) entry.1).map Prod.fst =
        table.resolve names := by
      rw [ih, List.zipIdx_succ, List.filter_map, List.map_map]
      rfl
    rw [resolve_cons, List.zipIdx_cons, List.filter_cons]
    by_cases hkept : table.Survives names name
    · rw [if_pos hkept, if_pos (by simpa using hkept), List.map_cons, htail]
    · rw [if_neg hkept, if_neg (by simpa using hkept), htail]

theorem resolve_sublist (table : Table) (names : List String) :
    (table.resolve names).Sublist names := by
  induction names with
  | nil => exact List.Sublist.refl []
  | cons name names ih =>
    rw [resolve_cons]
    split
    · exact ih.cons_cons name
    · exact ih.cons name

/-- What comes later is resolved by itself, and removes what it overrides from what
is left of the names before it. -/
theorem resolve_append (table : Table) (left right : List String) :
    table.resolve (left ++ right) =
      (table.resolve left).filter (fun name => table.Survives right name) ++
        table.resolve right := by
  induction left with
  | nil => rfl
  | cons name left ih =>
    rw [List.cons_append, resolve_cons, resolve_cons, ih]
    by_cases hleft : table.Survives left name
    · rw [if_pos hleft, List.filter_cons]
      by_cases hright : table.Survives right name
      · rw [if_pos (survives_append.mpr ⟨hleft, hright⟩), if_pos (decide_eq_true hright),
          List.cons_append]
      · have hgone : ¬ table.Survives (left ++ right) name :=
          fun hkept => hright (survives_append.mp hkept).2
        rw [if_neg hgone, if_neg (by simpa using hright)]
    · have hgone : ¬ table.Survives (left ++ right) name :=
        fun hkept => hleft (survives_append.mp hkept).1
      rw [if_neg hgone, if_neg hleft]

/-- Survivors do not override each other. -/
theorem resolve_resolve (table : Table) (names : List String) :
    table.resolve (table.resolve names) = table.resolve names := by
  induction names with
  | nil => rfl
  | cons name names ih =>
    rw [resolve_cons]
    split
    · next hkept =>
      rw [resolve_cons, if_pos (hkept.mono (table.resolve_sublist names).subset), ih]
    · exact ih

/-- A resolved front can stand for the names that it is left of, whatever follows. -/
theorem resolve_resolve_append (table : Table) (left right : List String) :
    table.resolve (table.resolve left ++ right) = table.resolve (left ++ right) := by
  rw [resolve_append, resolve_append, resolve_resolve]

end Table

end ClassNames
