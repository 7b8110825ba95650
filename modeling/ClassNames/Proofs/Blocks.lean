import ClassNames.Proofs.Survival

/-!
# Names that come in blocks

The names need not be there all at once.  What is left of the names so far can stand for
them when further ones come, because a name that was dropped stays dropped and what it
overrode is gone as well.  So a list that comes in blocks can be resolved after each block,
and names that are resolved already stay as they are.  The other way round, names do
nothing to those after them, and the last name is kept whatever it is.
-/

namespace ClassNames.Table

/-- The survivors of blocks that come one after the other, resolved after each block. -/
def resolveBlocks (table : Table) (blocks : List (List String)) : List String :=
  blocks.foldl (fun kept block => table.resolve (kept ++ block)) []

/-- After each block the survivors are those of all names so far. -/
theorem foldl_resolve (table : Table) (start : List String) (blocks : List (List String)) :
    blocks.foldl (fun kept block => table.resolve (kept ++ block)) (table.resolve start) =
      table.resolve (start ++ blocks.flatten) := by
  induction blocks generalizing start with
  | nil => rw [List.foldl_nil, List.flatten_nil, List.append_nil]
  | cons block blocks ih =>
    rw [List.foldl_cons, resolve_resolve_append, ih, List.flatten_cons, List.append_assoc]

theorem resolveBlocks_eq (table : Table) (blocks : List (List String)) :
    table.resolveBlocks blocks = table.resolve blocks.flatten :=
  table.foldl_resolve [] blocks

/-- What comes first loses some of its own survivors and does nothing else. -/
theorem exists_kept_resolve_append (table : Table) (left right : List String) :
    ∃ kept, kept.Sublist (table.resolve left) ∧
      table.resolve (left ++ right) = kept ++ table.resolve right :=
  ⟨_, List.filter_sublist, table.resolve_append left right⟩

theorem drop_mark_append (table : Table) (left right : List String) :
    (table.mark (left ++ right)).drop left.length = table.mark right := by
  rw [← mark_drop, List.drop_left]

theorem getLast?_mark_concat (table : Table) (names : List String) (last : String) :
    (table.mark (names ++ [last])).getLast? = some (Token.parse last, false) := by
  have hlast : (table.mark (names ++ [last])).drop names.length =
      [(Token.parse last, false)] := by
    rw [drop_mark_append, mark_cons, mark_nil]
    simp
  rw [← List.take_append_drop names.length (table.mark (names ++ [last])), hlast,
    List.getLast?_concat]

theorem exists_kept_resolve_concat (table : Table) (names : List String) (last : String) :
    ∃ kept, table.resolve (names ++ [last]) = kept ++ [last] := by
  obtain ⟨kept, -, hkept⟩ := table.exists_kept_resolve_append names [last]
  refine ⟨kept, ?_⟩
  rw [hkept, resolve_cons, resolve_nil, if_pos (table.survives_nil last)]

/-- Resolving block by block, with what is left of the blocks before, is resolving all names
at once, and a second time changes nothing.  The answers about names are the same whatever
stands before them, so the survivors end with those of the later names, in front of them
some survivors of the earlier ones, and the last name is never dropped. -/
theorem resolve_is_incremental (table : Table) :
    (∀ left right,
        table.resolve (table.resolve left ++ right) = table.resolve (left ++ right)) ∧
      (∀ names, table.resolve (table.resolve names) = table.resolve names) ∧
      (∀ blocks, table.resolveBlocks blocks = table.resolve blocks.flatten) ∧
      (∀ left right,
        (table.mark (left ++ right)).drop left.length = table.mark right ∧
          ∃ kept, kept.Sublist (table.resolve left) ∧
            table.resolve (left ++ right) = kept ++ table.resolve right) ∧
      ∀ names last,
        (table.mark (names ++ [last])).getLast? = some (Token.parse last, false) ∧
          ∃ kept, table.resolve (names ++ [last]) = kept ++ [last] := by
  refine ⟨table.resolve_resolve_append, table.resolve_resolve, table.resolveBlocks_eq, ?_, ?_⟩
  · intro left right
    exact ⟨table.drop_mark_append left right, table.exists_kept_resolve_append left right⟩
  · intro names last
    exact ⟨table.getLast?_mark_concat names last, table.exists_kept_resolve_concat names last⟩

/-- The first `mb` name is dropped by the second, after it has dropped the `mt` name itself. -/
example : builtIn.resolveBlocks [["mt::$1", "mb::$1"], ["mb::$2"]] = ["mb::$2"] := by
  decide +kernel

end ClassNames.Table
