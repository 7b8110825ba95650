import ClassNames.Proofs.Survival

/-!
# Conflicts in pairs

The pass goes over a whole list, but each answer that it gives is made of answers about
two names.  So a name survives if it survives next to each later name alone, and what
happens to a list under a renaming, in a part of it or after an exchange of neighbours
is settled by looking at pairs.
-/

namespace ClassNames.Table

variable {table : Table}

/-- Two names are both kept when the later one does not override the earlier one. -/
theorem resolve_pair_eq_self_iff {earlier later : String} :
    table.resolve [earlier, later] = [earlier, later] ↔ ¬ table.Overrides later earlier := by
  rw [resolve_pair]
  by_cases hover : table.Overrides later earlier
  · simp [hover]
  · simp [hover]

theorem resolve_pair_eq_later_iff {earlier later : String} :
    table.resolve [earlier, later] = [later] ↔ table.Overrides later earlier := by
  rw [resolve_pair]
  by_cases hover : table.Overrides later earlier
  · simp [hover]
  · simp [hover]

theorem survives_iff_resolve_pair {later : List String} {name : String} :
    table.Survives later name ↔
      ∀ other ∈ later, table.resolve [name, other] = [name, other] := by
  simp only [Survives, resolve_pair_eq_self_iff]

theorem getElem?_mark_eq_kept_iff {names : List String} {place : Nat} {name : String}
    (hname : names[place]? = some name) :
    (table.mark names)[place]? = some (Token.parse name, false) ↔
      table.Survives (names.drop (place + 1)) name := by
  rw [getElem?_mark, hname, Option.map_some]
  simp

/-! ## Parts of a list -/

/-- Names outside a part do nothing to the names in it, if whatever overrides a name of
the part is in the part too. -/
theorem survives_filter_iff {part : Token → Bool} {names : List String} {name : String}
    (hpart : ∀ later ∈ names, table.Overrides later name → part (Token.parse later)) :
    table.Survives (names.filter fun other => part (Token.parse other)) name ↔
      table.Survives names name := by
  constructor
  · intro hkept later hmem hover
    exact hkept later (List.mem_filter.mpr ⟨hmem, hpart later hmem hover⟩) hover
  · intro hkept
    exact hkept.mono List.filter_sublist.subset

theorem mark_filter (part : Token → Bool)
    (hpart : ∀ later earlier, table.Overrides later earlier →
      part (Token.parse earlier) → part (Token.parse later)) (names : List String) :
    table.mark (names.filter fun name => part (Token.parse name)) =
      (table.mark names).filter fun entry => part entry.1 := by
  induction names with
  | nil => rfl
  | cons name names ih =>
    rw [mark_cons, List.filter_cons, List.filter_cons]
    by_cases hname : part (Token.parse name)
    · have hsurvives := survives_filter_iff fun later (_ : later ∈ names) hover =>
        hpart later name hover hname
      rw [if_pos hname, if_pos hname, mark_cons, ih]
      simp only [hsurvives]
    · rw [if_neg hname, if_neg hname, ih]

/-- The answers are about the names as they are read. -/
theorem parse_raw_of_mem_mark {names : List String} {entry : Token × Bool}
    (hmem : entry ∈ table.mark names) : Token.parse entry.1.raw = entry.1 := by
  obtain ⟨place, hplace⟩ := List.mem_iff_getElem?.mp hmem
  rw [getElem?_mark, Option.map_eq_some_iff] at hplace
  obtain ⟨name, -, rfl⟩ := hplace
  rw [Token.raw_parse]

theorem resolve_filter (part : Token → Bool)
    (hpart : ∀ later earlier, table.Overrides later earlier →
      part (Token.parse earlier) → part (Token.parse later)) (names : List String) :
    table.resolve (names.filter fun name => part (Token.parse name)) =
      (table.resolve names).filter fun name => part (Token.parse name) := by
  rw [resolve, resolve, mark_filter part hpart, List.filter_map, List.filter_filter,
    List.filter_filter]
  congr 1
  apply List.filter_congr
  intro entry hmem
  rw [Function.comp_apply, parse_raw_of_mem_mark hmem, Bool.and_comm]

/-! ## Renamed lists -/

/-- Names can be changed before or after they are resolved, if the new ones override
each other just as the old ones do. -/
theorem resolve_map {rename : String → String} {names : List String}
    (hover : ∀ later ∈ names, ∀ earlier ∈ names,
      (table.Overrides (rename later) (rename earlier) ↔ table.Overrides later earlier)) :
    table.resolve (names.map rename) = (table.resolve names).map rename := by
  induction names with
  | nil => rfl
  | cons name names ih =>
    have hrest : table.resolve (names.map rename) = (table.resolve names).map rename := by
      apply ih
      intro later hlater earlier hearlier
      exact hover later (List.mem_cons_of_mem name hlater) earlier
        (List.mem_cons_of_mem name hearlier)
    have hsurvives : table.Survives (names.map rename) (rename name) ↔
        table.Survives names name := by
      rw [Survives, List.forall_mem_map]
      apply forall₂_congr
      intro later hlater
      rw [hover later (List.mem_cons_of_mem name hlater) name List.mem_cons_self]
    rw [List.map_cons, resolve_cons, resolve_cons, hrest, apply_ite (List.map rename)]
    simp only [hsurvives, List.map_cons]

/-! ## Exchanged neighbours -/

theorem survives_perm {left right : List String} (hperm : left.Perm right) (name : String) :
    table.Survives left name ↔ table.Survives right name := by
  simp only [Survives, hperm.mem_iff]

/-- What comes after the names before a block decides about them only through what it
overrides. -/
theorem exists_mark_append (before : List String) {block other : List String}
    (hblock : ∀ name, table.Survives block name ↔ table.Survives other name) :
    ∃ front, front.length = before.length ∧
      table.mark (before ++ block) = front ++ table.mark block ∧
      table.mark (before ++ other) = front ++ table.mark other := by
  induction before with
  | nil => exact ⟨[], rfl, rfl, rfl⟩
  | cons name before ih =>
    obtain ⟨front, hlength, hleft, hright⟩ := ih
    refine ⟨(Token.parse name, decide (¬ table.Survives (before ++ block) name)) :: front,
      ?_, ?_, ?_⟩
    · rw [List.length_cons, List.length_cons, hlength]
    · rw [List.cons_append, mark_cons, hleft, List.cons_append]
    · rw [List.cons_append, mark_cons, hright, List.cons_append]
      simp only [survives_append, hblock]

/-- A neighbour that does not override a name has no part in the answer about it. -/
theorem mark_pair_append {left right : String} (after : List String)
    (hkept : ¬ table.Overrides right left) :
    table.mark ([left, right] ++ after) =
      [(Token.parse left, decide (¬ table.Survives after left)),
        (Token.parse right, decide (¬ table.Survives after right))] ++ table.mark after := by
  have hleft : table.Survives (right :: after) left ↔ table.Survives after left := by
    rw [survives_cons, and_iff_right hkept]
  rw [List.cons_append, List.singleton_append, mark_cons, mark_cons]
  simp only [hleft, List.cons_append, List.nil_append]

theorem mark_exchange (before after : List String) {left right : String}
    (hleft : ¬ table.Overrides right left) (hright : ¬ table.Overrides left right) :
    ∃ (front : List (Token × Bool)) (leftGone rightGone : Bool),
      front.length = before.length ∧
      table.mark (before ++ ([left, right] ++ after)) =
        front ++ ([(Token.parse left, leftGone), (Token.parse right, rightGone)] ++
          table.mark after) ∧
      table.mark (before ++ ([right, left] ++ after)) =
        front ++ ([(Token.parse right, rightGone), (Token.parse left, leftGone)] ++
          table.mark after) := by
  have hblock (name : String) : table.Survives ([left, right] ++ after) name ↔
      table.Survives ([right, left] ++ after) name :=
    survives_perm (List.Perm.swap right left after) name
  obtain ⟨front, hlength, hfirst, hsecond⟩ := exists_mark_append before hblock
  rw [mark_pair_append after hleft] at hfirst
  rw [mark_pair_append after hright] at hsecond
  exact ⟨front, _, _, hlength, hfirst, hsecond⟩

/-- Of the two neighbours the same ones are left, in the order in which they stand. -/
theorem resolve_exchange (before after : List String) {left right : String}
    (hleft : table.resolve [left, right] = [left, right])
    (hright : table.resolve [right, left] = [right, left]) :
    ∃ front middle, middle.Sublist [left, right] ∧
      table.resolve (before ++ ([left, right] ++ after)) =
        front ++ (middle ++ table.resolve after) ∧
      table.resolve (before ++ ([right, left] ++ after)) =
        front ++ (middle.reverse ++ table.resolve after) := by
  have hfront : (table.resolve before).filter
        (fun name => table.Survives ([left, right] ++ after) name) =
      (table.resolve before).filter
        (fun name => table.Survives ([right, left] ++ after) name) := by
    apply List.filter_congr
    intro name _
    exact decide_eq_decide.mpr (survives_perm (List.Perm.swap right left after) name)
  have hmiddle : [right, left].filter (fun name => table.Survives after name) =
      ([left, right].filter fun name => table.Survives after name).reverse := by
    rw [← List.filter_reverse]
    rfl
  refine ⟨(table.resolve before).filter fun name =>
      table.Survives ([left, right] ++ after) name,
    [left, right].filter fun name => table.Survives after name, List.filter_sublist, ?_, ?_⟩
  · rw [resolve_append, resolve_append table [left, right], hleft]
  · rw [resolve_append, resolve_append table [right, left], hright, hmiddle, hfront]

/-- A name survives exactly when it survives next to each later one alone.  So two
neighbours that keep each other both ways round can change places: the answers change
places with them, and the results differ in their order at most. -/
theorem conflicts_decided_in_pairs (table : Table) :
    (∀ (names : List String) (place : Nat) (name : String), names[place]? = some name →
      ((table.mark names)[place]? = some (Token.parse name, false) ↔
        ∀ later ∈ names.drop (place + 1), table.resolve [name, later] = [name, later])) ∧
      ∀ (before after : List String) (left right : String),
        table.resolve [left, right] = [left, right] →
        table.resolve [right, left] = [right, left] →
          (∃ (front : List (Token × Bool)) (leftGone rightGone : Bool),
            front.length = before.length ∧
            table.mark (before ++ ([left, right] ++ after)) =
              front ++ ([(Token.parse left, leftGone), (Token.parse right, rightGone)] ++
                table.mark after) ∧
            table.mark (before ++ ([right, left] ++ after)) =
              front ++ ([(Token.parse right, rightGone), (Token.parse left, leftGone)] ++
                table.mark after)) ∧
          ∃ front middle, middle.Sublist [left, right] ∧
            table.resolve (before ++ ([left, right] ++ after)) =
              front ++ (middle ++ table.resolve after) ∧
            table.resolve (before ++ ([right, left] ++ after)) =
              front ++ (middle.reverse ++ table.resolve after) := by
  constructor
  · intro names place name hname
    rw [getElem?_mark_eq_kept_iff hname, survives_iff_resolve_pair]
  · intro before after left right hleft hright
    constructor
    · exact mark_exchange before after (resolve_pair_eq_self_iff.mp hleft)
        (resolve_pair_eq_self_iff.mp hright)
    · exact resolve_exchange before after hleft hright

/-- Under `md` and without a modifier nothing is in conflict, so the two neighbours change
places between the padding that the first one drops and the one that drops the second. -/
theorem builtIn_exchange_across_modifiers :
    ["md:px::$1", "md:p::$2"][0]? = some "md:px::$1" ∧
      ((builtIn.mark ["md:px::$1", "md:p::$2"])[0]? =
          some (Token.parse "md:px::$1", false) ↔
        ∀ later ∈ ["md:px::$1", "md:p::$2"].drop (0 + 1),
          builtIn.resolve ["md:px::$1", later] = ["md:px::$1", later]) ∧
      builtIn.resolve ["md:p::$2", "p::$3"] = ["md:p::$2", "p::$3"] ∧
      builtIn.resolve ["p::$3", "md:p::$2"] = ["p::$3", "md:p::$2"] ∧
      ∃ front middle, middle.Sublist ["md:p::$2", "p::$3"] ∧
        builtIn.resolve (["md:px::$1"] ++ (["md:p::$2", "p::$3"] ++ ["p::$4"])) =
          front ++ (middle ++ builtIn.resolve ["p::$4"]) ∧
        builtIn.resolve (["md:px::$1"] ++ (["p::$3", "md:p::$2"] ++ ["p::$4"])) =
          front ++ (middle.reverse ++ builtIn.resolve ["p::$4"]) := by
  have hleft : builtIn.resolve ["md:p::$2", "p::$3"] = ["md:p::$2", "p::$3"] := by
    decide +kernel
  have hright : builtIn.resolve ["p::$3", "md:p::$2"] = ["p::$3", "md:p::$2"] := by
    decide +kernel
  obtain ⟨hpairs, hexchange⟩ := conflicts_decided_in_pairs builtIn
  exact ⟨rfl, hpairs _ 0 _ rfl, hleft, hright, (hexchange _ _ _ _ hleft hright).2⟩

end ClassNames.Table
