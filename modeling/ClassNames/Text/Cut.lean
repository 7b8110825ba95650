/-!
# Cutting a text at a separator

A text is cut at the first separator, at the last one, or at the first place
where the separator stands twice in a row.  Every cut gives the text before and
the text after, without the separator itself, and is `none` exactly when there
is nothing to cut at.  The `_eq_some` lemmas say that a cut loses nothing.
-/

namespace ClassNames.Text

/-- The texts before and after the first `separator`. -/
def cutFirst? (separator : Char) : List Char → Option (List Char × List Char)
  | [] => none
  | c :: rest =>
    if c = separator then some ([], rest)
    else (cutFirst? separator rest).map fun (before, after) => (c :: before, after)

/-- The texts before and after the last `separator`. -/
def cutLast? (separator : Char) : List Char → Option (List Char × List Char)
  | [] => none
  | c :: rest =>
    match cutLast? separator rest with
    | some (before, after) => some (c :: before, after)
    | none => if c = separator then some ([], rest) else none

/-- The texts before and after the first place where `separator` stands twice
in a row. -/
def cutDouble? (separator : Char) : List Char → Option (List Char × List Char)
  | [] => none
  | c :: rest =>
    if c = separator ∧ rest.head? = some separator then some ([], rest.tail)
    else (cutDouble? separator rest).map fun (before, after) => (c :: before, after)

@[simp]
theorem cutFirst?_eq_none_iff {separator : Char} {text : List Char} :
    cutFirst? separator text = none ↔ separator ∉ text := by
  induction text with
  | nil => simp [cutFirst?]
  | cons c rest ih =>
    by_cases hc : c = separator
    · simp [cutFirst?, hc]
    · simp [cutFirst?, hc, ih, Ne.symm hc]

theorem cutFirst?_eq_some_iff {separator : Char} {text before after : List Char} :
    cutFirst? separator text = some (before, after) ↔
      text = before ++ separator :: after ∧ separator ∉ before := by
  induction text generalizing before with
  | nil => simp [cutFirst?]
  | cons c rest ih =>
    by_cases hc : c = separator
    · subst hc
      cases before with
      | nil => simp [cutFirst?, eq_comm]
      | cons b bs => simp only [cutFirst?, if_true]; grind
    · cases before with
      | nil => simp [cutFirst?, hc]
      | cons b bs =>
        simp only [cutFirst?, hc, if_false, Option.map_eq_some_iff, Prod.mk.injEq,
          List.cons.injEq, List.cons_append, List.mem_cons, not_or]
        constructor
        · rintro ⟨⟨before, after⟩, hcut, ⟨rfl, rfl⟩, rfl⟩
          have := ih.mp hcut
          exact ⟨⟨rfl, this.1⟩, Ne.symm hc, this.2⟩
        · rintro ⟨⟨rfl, htext⟩, _, hbefore⟩
          exact ⟨(bs, after), ih.mpr ⟨htext, hbefore⟩, ⟨rfl, rfl⟩, rfl⟩

@[simp]
theorem cutLast?_eq_none_iff {separator : Char} {text : List Char} :
    cutLast? separator text = none ↔ separator ∉ text := by
  induction text with
  | nil => simp [cutLast?]
  | cons c rest ih =>
    cases hrest : cutLast? separator rest with
    | none =>
      have := ih.mp hrest
      by_cases hc : c = separator
      · simp [cutLast?, hrest, hc]
      · simp [cutLast?, hrest, hc, this, Ne.symm hc]
    | some parts =>
      have : separator ∈ rest := by
        apply Classical.byContradiction
        intro hnot
        simp [ih.mpr hnot] at hrest
      simp [cutLast?, hrest, this]

theorem cutLast?_eq_some_iff {separator : Char} {text before after : List Char} :
    cutLast? separator text = some (before, after) ↔
      text = before ++ separator :: after ∧ separator ∉ after := by
  induction text generalizing before after with
  | nil => simp [cutLast?]
  | cons c rest ih =>
    cases hrest : cutLast? separator rest with
    | none =>
      have hnot := cutLast?_eq_none_iff.mp hrest
      cases before with
      | nil =>
        by_cases hc : c = separator
        · subst hc
          simp only [cutLast?, hrest, if_true, Option.some.injEq, Prod.mk.injEq, true_and,
            List.nil_append, List.cons.injEq]
          exact ⟨fun h => ⟨h, h ▸ hnot⟩, fun h => h.1⟩
        · simp [cutLast?, hrest, hc]
      | cons b bs =>
        simp only [cutLast?, hrest]
        grind
    | some parts =>
      obtain ⟨front, back⟩ := parts
      have hsome := ih.mp hrest
      cases before with
      | nil =>
        simp only [cutLast?, hrest]
        grind
      | cons b bs =>
        simp only [cutLast?, hrest, Option.some.injEq, Prod.mk.injEq, List.cons.injEq,
          List.cons_append, and_assoc]
        rw [← ih, hrest]
        simp

/-- A text with a doubled separator is one in which some cut at it exists. -/
@[simp]
theorem cutDouble?_eq_none_iff {separator : Char} {text : List Char} :
    cutDouble? separator text = none ↔ ¬ [separator, separator] <:+: text := by
  induction text with
  | nil => simp [cutDouble?]
  | cons c rest ih =>
    have hhead : [separator, separator] <+: c :: rest ↔
        c = separator ∧ rest.head? = some separator := by
      cases rest <;> simp [List.cons_prefix_cons, eq_comm]
    rw [List.infix_cons_iff, hhead]
    by_cases hc : c = separator ∧ rest.head? = some separator
    · simp [cutDouble?, hc]
    · simp [cutDouble?, hc, ih]

/-- The first cut is the one whose front, with one more separator, still has none
doubled. -/
theorem cutDouble?_eq_some_iff {separator : Char} {text before after : List Char} :
    cutDouble? separator text = some (before, after) ↔
      text = before ++ separator :: separator :: after ∧
        ¬ [separator, separator] <:+: before ++ [separator] := by
  induction text generalizing before with
  | nil => simp [cutDouble?]
  | cons c rest ih =>
    cases before with
    | nil =>
      by_cases hc : c = separator ∧ rest.head? = some separator
      · obtain ⟨rfl, hhead⟩ := hc
        obtain ⟨tail, rfl⟩ := List.head?_eq_some_iff.mp hhead
        have hshort : ¬ [c, c] <:+: [c] := fun h => by simpa using h.length_le
        simp [cutDouble?, hshort]
      · have hne : c :: rest ≠ separator :: separator :: after := by
          rintro ⟨⟩
          simp at hc
        simp [cutDouble?, hc, hne]
    | cons b bs =>
      have hprefix : [separator, separator] <+: b :: (bs ++ [separator]) ↔
          b = separator ∧ (bs ++ [separator]).head? = some separator := by
        cases bs <;> simp [List.cons_prefix_cons, eq_comm]
      rw [List.cons_append, List.cons_append, List.infix_cons_iff, hprefix]
      by_cases hc : c = separator ∧ rest.head? = some separator
      · obtain ⟨rfl, hhead⟩ := hc
        simp only [cutDouble?, hhead]
        cases bs <;> grind
      · simp only [cutDouble?, hc, if_false, Option.map_eq_some_iff, Prod.mk.injEq,
          List.cons.injEq]
        constructor
        · rintro ⟨⟨front, back⟩, hcut, ⟨rfl, rfl⟩, rfl⟩
          obtain ⟨rfl, hnot⟩ := ih.mp hcut
          refine ⟨⟨rfl, rfl⟩, ?_⟩
          rintro (⟨rfl, hhead⟩ | hinfix)
          · apply hc
            cases front <;> simp_all
          · exact hnot hinfix
        · rintro ⟨⟨rfl, rfl⟩, hnot⟩
          rw [not_or] at hnot
          exact ⟨(bs, after), ih.mpr ⟨rfl, hnot.2⟩, ⟨rfl, rfl⟩, rfl⟩

/-- A separator that the text after it does not double starts no cut, so the text is
cut where it is cut alone. -/
theorem cutDouble?_append_cons {separator : Char} {left text : List Char}
    (hleft : separator ∉ left) (hhead : text.head? ≠ some separator) :
    cutDouble? separator (left ++ separator :: text) =
      (cutDouble? separator text).map fun (before, after) =>
        (left ++ separator :: before, after) := by
  induction left with
  | nil => simp [cutDouble?, hhead]
  | cons c left ih =>
    rw [List.mem_cons, not_or] at hleft
    obtain ⟨hc, hrest⟩ := hleft
    simp [cutDouble?, Ne.symm hc, ih hrest, Function.comp_def]

end ClassNames.Text
