import ClassNames.Contribution

/-!
# Values grouped in other ways

Composing sees the words of its values and nothing of how they are put together.  So a list
can be opened in its place, a text can be cut at its blanks, and a map can be taken apart
into its entries, however deep in other lists they stand.  Values that are read from JSON
are no exception, because an array becomes the list of its values.

A text is cut at the ASCII blanks alone.  Other blanks are part of a word.
-/

namespace ClassNames

/-! ## Places in nested lists -/

/-- A place between items, some of which can be lists of items themselves. -/
inductive Frame (Item : Type) where
  /-- The place is here. -/
  | among (before after : List Item)
  /-- The place is in a list that is one of the items. -/
  | within (before : List Item) (inner : Frame Item) (after : List Item)

namespace Frame

variable {Item Other : Type}

/-- The items with further ones put into the place.  A list is made an item by `group`. -/
def fill (group : List Item → Item) : Frame Item → List Item → List Item
  | .among before after, items => before ++ items ++ after
  | .within before inner after, items => before ++ [group (inner.fill group items)] ++ after

/-- The same place with all items around it changed. -/
def map (change : Item → Other) : Frame Item → Frame Other
  | .among before after => .among (before.map change) (after.map change)
  | .within before inner after =>
    .within (before.map change) (inner.map change) (after.map change)

/-- Items can be changed before or after they are put into a place, if a list of items is
changed item by item. -/
theorem map_fill {group : List Item → Item} {group' : List Other → Other}
    {change : Item → Other} (hgroup : ∀ items, change (group items) = group' (items.map change))
    (frame : Frame Item) (items : List Item) :
    (frame.fill group items).map change = (frame.map change).fill group' (items.map change) := by
  induction frame with
  | among before after => simp [fill, map]
  | within before inner after ih => simp [fill, map, hgroup, ih]

end Frame

namespace Contribution

/-- Composing makes no difference between the values, whatever stands around them. -/
def Interchangeable (left right : List Contribution) : Prop :=
  ∀ (table : Table) (frame : Frame Contribution),
    table.compose (frame.fill .list left) = table.compose (frame.fill .list right)

theorem words_list (items : List Contribution) : words (.list items) = items.flatMap words :=
  wordsOfAll_eq_flatMap items

/-- The words of all values are those around the place with those that are put into it. -/
theorem words_fill {left right : List Contribution}
    (hwords : left.flatMap words = right.flatMap words) (frame : Frame Contribution) :
    (frame.fill .list left).flatMap words = (frame.fill .list right).flatMap words := by
  induction frame with
  | among before after => simp [Frame.fill, hwords]
  | within before inner after ih => simp [Frame.fill, words_list, ih]

theorem interchangeable_of_words {left right : List Contribution}
    (hwords : left.flatMap words = right.flatMap words) : Interchangeable left right := by
  intro table frame
  rw [Table.compose, Table.compose, wordsOfAll_eq_flatMap, wordsOfAll_eq_flatMap,
    words_fill hwords frame]

/-! ## The words of the parts -/

theorem wordsOfEntries_append (left right : List (String × Bool)) :
    wordsOfEntries (left ++ right) = wordsOfEntries left ++ wordsOfEntries right := by
  simp [wordsOfEntries]

theorem wordsOfEntries_cons_true (name : String) (entries : List (String × Bool)) :
    wordsOfEntries ((name, true) :: entries) = namesOf name ++ wordsOfEntries entries := by
  simp [wordsOfEntries]

/-- An array is the list of its values. -/
theorem ofJson_array (items : List Json.Value) :
    ofJson (.array items) = .list (items.map ofJson) := by
  have hitems : ofJsonItems items = items.map ofJson := by
    induction items with
    | nil => rfl
    | cons item items ih => rw [ofJsonItems, ih, List.map_cons]
  rw [ofJson, hitems]

/-- A list stands for its items, a text for the parts on both sides of a run of ASCII
blanks, a map for the parts of its entries, and an entry that holds for its name.  The same
goes for arrays that are read from JSON, in whatever arrays they stand. -/
theorem grouping_makes_no_difference :
    (∀ values, Interchangeable [.list values] values) ∧
      (∀ left gap right, Text.IsGap Text.isAsciiBlank gap →
        Interchangeable [.text (left ++ gap ++ right)] [.text left, .text right]) ∧
      (∀ left right, Interchangeable [.map (left ++ right)] [.map left, .map right]) ∧
      (∀ left name right,
        Interchangeable [.map (left ++ (name, true) :: right)]
            [.map left, .text name, .map right] ∧
          Interchangeable [conditional name true] [.text name]) ∧
      (∀ items, Interchangeable [ofJson (.array items)] (items.map ofJson)) ∧
      ∀ (table : Table) (frame : Frame Json.Value) (items : List Json.Value),
        table.compose ((frame.fill .array [.array items]).map ofJson) =
          table.compose ((frame.fill .array items).map ofJson) := by
  have hlist (values : List Contribution) : Interchangeable [.list values] values :=
    interchangeable_of_words (by simp [words_list])
  refine ⟨hlist, ?_, ?_, ?_, ?_, ?_⟩
  · intro left gap right hgap
    apply interchangeable_of_words
    simp [words, namesOf, Text.words_append_gap hgap]
  · intro left right
    apply interchangeable_of_words
    simp [words, wordsOfEntries_append]
  · intro left name right
    constructor
    · apply interchangeable_of_words
      simp [words, wordsOfEntries_append, wordsOfEntries_cons_true]
    · apply interchangeable_of_words
      simp [words, conditional, wordsOfEntries]
  · intro items
    rw [ofJson_array]
    exact hlist (items.map ofJson)
  · -- Reading the values first leaves lists in the place of arrays, around it and in it.
    intro table frame items
    rw [Frame.map_fill ofJson_array, Frame.map_fill ofJson_array, List.map_singleton,
      ofJson_array]
    exact hlist (items.map ofJson) table (frame.map ofJson)

/-- A text in a list is cut at three blanks.  A no-break space stays in its word. -/
theorem grouping_makes_no_difference_cut :
    let frame : Frame Contribution :=
      .within [.text "px::$1 block"] (.among [.flag true] [.text "flex"]) [.text "p::$2"]
    let gap := "\t \n"
    Text.IsGap Text.isAsciiBlank gap ∧
      Table.builtIn.compose (frame.fill .list [.text ("py::$1" ++ gap ++ "a\u00a0b")]) =
        Table.builtIn.compose (frame.fill .list [.text "py::$1", .text "a\u00a0b"]) ∧
      Table.builtIn.compose (frame.fill .list [.text "py::$1", .text "a\u00a0b"]) =
        "block a\u00a0b flex p::$2" := by
  intro frame gap
  have hgap : Text.IsGap Text.isAsciiBlank gap := by decide +kernel
  obtain ⟨-, hcut, -⟩ := grouping_makes_no_difference
  exact ⟨hgap, hcut "py::$1" gap "a\u00a0b" hgap Table.builtIn frame, by decide +kernel⟩

end Contribution

end ClassNames
