/-!
# Blanks and the words of a text

A word is a longest run of characters that are not blank.  What counts as blank is a
parameter, because two classes of blanks are in use.  Class names in a text are separated
by the ASCII blanks alone, while the arguments of a bracketed value are cleaned of every
character that has the Unicode property `White_Space`.

The laws are stated over lists of characters: no word is empty, no word holds a blank,
a text without blanks is its own only word, a run of blanks between two texts
separates their words, and the words together are the text without its blanks.
-/

namespace ClassNames.Text

/-! ## Classes of blanks -/

/-- Space, tab, line feed, form feed and carriage return. -/
def isAsciiBlank (c : Char) : Bool :=
  c == ' ' || c == '\t' || c == '\n' || c == '\x0c' || c == '\r'

/-- The code point ranges, ends included, of the Unicode property
`White_Space`. -/
def blankRanges : List (Nat × Nat) :=
  [(0x09, 0x0d), (0x20, 0x20), (0x85, 0x85), (0xa0, 0xa0), (0x1680, 0x1680),
   (0x2000, 0x200a), (0x2028, 0x2029), (0x202f, 0x202f), (0x205f, 0x205f),
   (0x3000, 0x3000)]

/-- Has the Unicode property `White_Space`. -/
def isBlank (c : Char) : Bool :=
  blankRanges.any fun (low, high) => low ≤ c.toNat && c.toNat ≤ high

theorem isBlank_of_isAsciiBlank {c : Char} (h : isAsciiBlank c) : isBlank c := by
  simp only [isAsciiBlank, Bool.or_eq_true, beq_iff_eq] at h
  rcases h with (((rfl | rfl) | rfl) | rfl) | rfl <;> decide

example : (blankRanges.map fun (low, high) => high + 1 - low).sum = 25 := by decide

/-! ## Words -/

/-- The longest runs of characters that are not blank, in order. -/
def wordsOfList (blank : Char → Bool) (text : List Char) : List (List Char) :=
  (text.splitOnP blank).filter (!·.isEmpty)

/-- A text that can be a word. -/
structure IsWord (blank : Char → Bool) (text : List Char) : Prop where
  ne_nil : text ≠ []
  not_blank : ∀ c ∈ text, blank c = false

/-- The words of a text, in order. -/
def words (blank : Char → Bool) (text : String) : List String :=
  (wordsOfList blank text.toList).map String.ofList

/-- A text of blanks alone, at least one. -/
structure IsGap (blank : Char → Bool) (gap : String) : Prop where
  ne_empty : gap ≠ ""
  blank_of_mem : ∀ c ∈ gap.toList, blank c

instance (blank : Char → Bool) (gap : String) : Decidable (IsGap blank gap) :=
  decidable_of_decidable_of_iff (p := gap ≠ "" ∧ gap.toList.all blank)
    ⟨fun h => ⟨h.1, List.all_eq_true.mp h.2⟩,
      fun h => ⟨h.ne_empty, List.all_eq_true.mpr h.blank_of_mem⟩⟩

@[simp]
theorem wordsOfList_nil (blank : Char → Bool) : wordsOfList blank [] = [] := rfl

theorem wordsOfList_eq_singleton {blank : Char → Bool} {text : List Char}
    (hword : IsWord blank text) : wordsOfList blank text = [text] := by
  simp [wordsOfList, List.splitOnP_eq_singleton hword.not_blank, hword.ne_nil]

theorem words_eq_singleton {blank : Char → Bool} {text : String}
    (hword : IsWord blank text.toList) : words blank text = [text] := by
  rw [words, wordsOfList_eq_singleton hword, List.map_singleton, String.ofList_toList]

theorem wordsOfList_append_blank {blank : Char → Bool} (left right : List Char)
    {c : Char} (hc : blank c) :
    wordsOfList blank (left ++ c :: right) =
      wordsOfList blank left ++ wordsOfList blank right := by
  simp [wordsOfList, List.splitOnP_append_cons, hc]

/-- A run of blanks separates the words like a single one. -/
theorem wordsOfList_append_gap {blank : Char → Bool} (left right : List Char)
    {gap : List Char} (hne : gap ≠ []) (hgap : ∀ c ∈ gap, blank c) :
    wordsOfList blank (left ++ gap ++ right) =
      wordsOfList blank left ++ wordsOfList blank right := by
  induction gap generalizing left with
  | nil => exact absurd rfl hne
  | cons c gap ih =>
    obtain ⟨hc, hrest⟩ := List.forall_mem_cons.mp hgap
    rw [List.append_assoc, List.cons_append, wordsOfList_append_blank left _ hc]
    by_cases hempty : gap = []
    · rw [hempty, List.nil_append]
    · have hskip := ih [] hempty hrest
      rw [List.nil_append, wordsOfList_nil, List.nil_append] at hskip
      rw [hskip]

theorem words_append_gap {blank : Char → Bool} {gap : String} (hgap : IsGap blank gap)
    (left right : String) :
    words blank (left ++ gap ++ right) = words blank left ++ words blank right := by
  have hne : gap.toList ≠ [] := by simpa using hgap.ne_empty
  rw [words, String.toList_append, String.toList_append,
    wordsOfList_append_gap _ _ hne hgap.blank_of_mem, List.map_append]
  rfl

theorem not_blank_of_mem_splitOnP {blank : Char → Bool} {text piece : List Char}
    (hpiece : piece ∈ text.splitOnP blank) : ∀ c ∈ piece, blank c = false := by
  induction text generalizing piece with
  | nil =>
    obtain rfl : piece = [] := by simpa using hpiece
    simp
  | cons head rest ih =>
    obtain ⟨first, others, hrest⟩ :=
      List.exists_cons_of_ne_nil (List.splitOnP_ne_nil blank rest)
    rw [List.splitOnP_cons_eq_if_modifyHead] at hpiece
    split at hpiece
    · rcases List.mem_cons.mp hpiece with rfl | hpiece
      · simp
      · exact ih hpiece
    · next hhead =>
      rw [hrest, List.modifyHead_cons, List.mem_cons] at hpiece
      rcases hpiece with rfl | hpiece
      · intro c hc
        rcases List.mem_cons.mp hc with rfl | hc
        · simpa using hhead
        · exact ih (hrest ▸ List.mem_cons_self) c hc
      · exact ih (hrest ▸ List.mem_cons_of_mem first hpiece)

theorem isWord_of_mem_wordsOfList {blank : Char → Bool} {text word : List Char}
    (hmem : word ∈ wordsOfList blank text) : IsWord blank word := by
  obtain ⟨hpiece, hne⟩ := List.mem_filter.mp hmem
  exact ⟨by simpa using hne, not_blank_of_mem_splitOnP hpiece⟩

theorem flatten_splitOnP (blank : Char → Bool) (text : List Char) :
    (text.splitOnP blank).flatten = text.filter (!blank ·) := by
  induction text with
  | nil => rfl
  | cons head rest ih =>
    rw [List.splitOnP_cons_eq_if_modifyHead, List.filter_cons, ← ih]
    by_cases hhead : blank head
    · simp [hhead]
    · obtain ⟨first, others, hrest⟩ :=
        List.exists_cons_of_ne_nil (List.splitOnP_ne_nil blank rest)
      simp [hhead, hrest]

/-- Words lose the blanks of a text and nothing else. -/
theorem flatten_wordsOfList (blank : Char → Bool) (text : List Char) :
    (wordsOfList blank text).flatten = text.filter (!blank ·) := by
  rw [wordsOfList, List.flatten_filter_not_isEmpty, flatten_splitOnP]

theorem intercalate_ne_empty {gap first : String} (hfirst : first ≠ "") (rest : List String) :
    gap.intercalate (first :: rest) ≠ "" := by
  cases rest with
  | nil => rwa [String.intercalate_singleton]
  | cons next rest =>
    rw [String.intercalate_cons_cons]
    simp [hfirst]

/-- What is put between words adds none of the characters that it does not hold. -/
theorem count_intercalate {c : Char} {gap : List Char} (hgap : c ∉ gap)
    (words : List (List Char)) : (gap.intercalate words).count c = words.flatten.count c := by
  induction words with
  | nil => rfl
  | cons word words ih =>
    cases words with
    | nil => simp
    | cons next words =>
      rw [List.intercalate_cons_cons, List.count_append, List.count_append, ih,
        List.count_eq_zero.mpr hgap, Nat.add_zero, ← List.count_append]
      rfl

/-- Words with one blank between them are read back. -/
theorem wordsOfList_intercalate {blank : Char → Bool} {separator : Char}
    (hseparator : blank separator) {words : List (List Char)}
    (hwords : ∀ word ∈ words, IsWord blank word) :
    wordsOfList blank ([separator].intercalate words) = words := by
  induction words with
  | nil => rfl
  | cons word words ih =>
    have hword := hwords word List.mem_cons_self
    cases words with
    | nil => rw [List.intercalate_singleton, wordsOfList_eq_singleton hword]
    | cons next words =>
      have hrest := ih fun other hmem => hwords other (List.mem_cons_of_mem word hmem)
      rw [List.intercalate_cons_cons, List.append_assoc, List.singleton_append,
        wordsOfList_append_blank _ _ hseparator, wordsOfList_eq_singleton hword, hrest,
        List.singleton_append]

end ClassNames.Text
