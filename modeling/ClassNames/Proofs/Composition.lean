import ClassNames.Contribution
import ClassNames.Proofs.Numeral
import ClassNames.Proofs.Survival

/-!
# Composing in parts

The text that composing gives holds the surviving names with one blank between
them.  Every name that a value contributes is a word, so the text is read back as
those names.  Names that were dropped on the way are not missed: whatever they would
have overridden in front of them is gone as well, and they never touch what comes
after them.
-/

namespace ClassNames

open Text

namespace Contribution

theorem isWord_of_mem_namesOf {text name : String} (hmem : name ∈ namesOf text) :
    IsWord isAsciiBlank name.toList := by
  obtain ⟨word, hword, rfl⟩ := List.mem_map.mp hmem
  rw [String.toList_ofList]
  exact isWord_of_mem_wordsOfList hword

/-- Names with one blank between them are read back. -/
theorem namesOf_intercalate {names : List String}
    (hnames : ∀ name ∈ names, IsWord isAsciiBlank name.toList) :
    namesOf (" ".intercalate names) = names := by
  have hwords : ∀ word ∈ names.map String.toList, IsWord isAsciiBlank word := by
    intro word hmem
    obtain ⟨name, hname, rfl⟩ := List.mem_map.mp hmem
    exact hnames name hname
  have hread : wordsOfList isAsciiBlank (" ".intercalate names).toList =
      names.map String.toList := by
    rw [String.toList_intercalate]
    exact wordsOfList_intercalate (by decide) hwords
  rw [namesOf, Text.words, hread, List.map_map]
  simp

theorem not_isAsciiBlank_of_isNumeral {c : Char} (hc : Decimal.IsNumeral c) :
    isAsciiBlank c = false := by
  rcases hc with hdigit | hother
  · apply Bool.eq_false_iff.mpr
    intro hblank
    simp only [isAsciiBlank, Bool.or_eq_true, beq_iff_eq] at hblank
    rcases hblank with (((rfl | rfl) | rfl) | rfl) | rfl <;> cases hdigit
  · have hnone : ['-', '.', 'i', 'n', 'f', 'N', 'a'].all (!isAsciiBlank ·) := by decide
    simpa using List.all_eq_true.mp hnone c hother

theorem isWord_floatText (number : Float) :
    IsWord isAsciiBlank (Decimal.floatText number).toList where
  ne_nil := Decimal.floatText_ne_nil number
  not_blank _ hc := not_isAsciiBlank_of_isNumeral (Decimal.isNumeral_of_mem_floatText hc)

theorem isWord_of_mem_wordsOfNumber {number : Float} {name : String}
    (hmem : name ∈ wordsOfNumber number) : IsWord isAsciiBlank name.toList := by
  rw [wordsOfNumber] at hmem
  split at hmem
  · cases hmem
  · obtain rfl := List.mem_singleton.mp hmem
    exact isWord_floatText number

theorem isWord_of_mem_wordsOfEntries {entries : List (String × Bool)} {name : String}
    (hmem : name ∈ wordsOfEntries entries) : IsWord isAsciiBlank name.toList := by
  obtain ⟨entry, -, hname⟩ := List.mem_flatMap.mp hmem
  exact isWord_of_mem_namesOf hname

mutual

/-- Whatever a value contributes is a word. -/
theorem isWord_of_mem_words {name : String} (value : Contribution)
    (hmem : name ∈ value.words) : IsWord isAsciiBlank name.toList := by
  cases value with
  | nothing => cases hmem
  | flag value => cases hmem
  | number value => exact isWord_of_mem_wordsOfNumber hmem
  | text names => exact isWord_of_mem_namesOf hmem
  | list items => exact isWord_of_mem_wordsOfAll items hmem
  | map entries => exact isWord_of_mem_wordsOfEntries hmem

theorem isWord_of_mem_wordsOfAll {name : String} (values : List Contribution)
    (hmem : name ∈ wordsOfAll values) : IsWord isAsciiBlank name.toList := by
  cases values with
  | nil => cases hmem
  | cons value values =>
    rcases List.mem_append.mp hmem with hmem | hmem
    · exact isWord_of_mem_words value hmem
    · exact isWord_of_mem_wordsOfAll values hmem

end

end Contribution

namespace Table

theorem isWord_of_mem_resolve {table : Table} {values : List Contribution} {name : String}
    (hmem : name ∈ table.resolve (Contribution.wordsOfAll values)) :
    IsWord isAsciiBlank name.toList :=
  Contribution.isWord_of_mem_wordsOfAll values ((table.resolve_sublist _).subset hmem)

/-- A composed text contributes the names that survive in it. -/
theorem words_text_compose (table : Table) (values : List Contribution) :
    Contribution.words (.text (table.compose values)) =
      table.resolve (Contribution.wordsOfAll values) :=
  Contribution.namesOf_intercalate fun _ hmem => isWord_of_mem_resolve hmem

/-- A composed text stands for the values that it was composed of, in front of any
further values and alone. -/
theorem compose_text_compose (table : Table) (values more : List Contribution) :
    table.compose ([.text (table.compose values)] ++ more) =
        table.compose (values ++ more) ∧
      table.compose [.text (table.compose values)] = table.compose values := by
  constructor
  · have hwords : Contribution.wordsOfAll ([.text (table.compose values)] ++ more) =
        table.resolve (Contribution.wordsOfAll values) ++ Contribution.wordsOfAll more := by
      rw [List.singleton_append, Contribution.wordsOfAll, words_text_compose]
    have happend : Contribution.wordsOfAll (values ++ more) =
        Contribution.wordsOfAll values ++ Contribution.wordsOfAll more := by
      simp
    calc
      table.compose ([.text (table.compose values)] ++ more)
          = " ".intercalate (table.resolve
              (table.resolve (Contribution.wordsOfAll values) ++
                Contribution.wordsOfAll more)) := by
        rw [compose, resolveToText, hwords]
      _ = " ".intercalate (table.resolve
            (Contribution.wordsOfAll values ++ Contribution.wordsOfAll more)) := by
        rw [resolve_resolve_append]
      _ = table.compose (values ++ more) := by
        rw [compose, resolveToText, happend]
  · have hwords : Contribution.wordsOfAll [.text (table.compose values)] =
        table.resolve (Contribution.wordsOfAll values) := by
      rw [Contribution.wordsOfAll, words_text_compose]
      exact List.append_nil _
    rw [compose, resolveToText, hwords, resolve_resolve]
    rfl

end Table

end ClassNames
