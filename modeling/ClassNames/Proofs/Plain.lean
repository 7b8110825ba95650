import ClassNames.Proofs.Composition
import ClassNames.Proofs.Pairwise
import ClassNames.Proofs.Value

/-!
# Plain words

An ordinary class name follows no grammar: it has no divider, or too many, or a value of no
known form.  It fills no slot and claims none, so composing keeps every one of them, in
order and as often as it is there, and the other names are resolved as if the plain ones
were missing.  A written number is always plain, because it starts with a digit, a sign or
a letter and holds no separator.
-/

namespace ClassNames

open Token

/-- The text is read as a plain name. -/
def IsPlain (name : String) : Prop :=
  (parse name).kind = .plain

instance (name : String) : Decidable (IsPlain name) :=
  inferInstanceAs (Decidable (_ = _))

/-- What stands between the single blanks of a text.  The empty text has no pieces. -/
def pieces (text : String) : List String :=
  if text = "" then [] else (text.split ' ').toList.map (·.copy)

/-- Names with one blank between them are the pieces of the text. -/
theorem pieces_intercalate {names : List String}
    (hnames : ∀ name ∈ names, Text.IsWord Text.isAsciiBlank name.toList) :
    pieces (" ".intercalate names) = names := by
  have hblank : ∀ name ∈ names, ' ' ∉ name.toList := by
    intro name hmem hspace
    cases (hnames name hmem).not_blank ' ' hspace
  cases names with
  | nil => rfl
  | cons name names =>
    have hname : name ≠ "" := by simpa using (hnames name List.mem_cons_self).ne_nil
    have hne : " ".intercalate (name :: names) ≠ "" := Text.intercalate_ne_empty hname names
    rw [pieces, if_neg hne]
    exact (String.toList_split_intercalate hblank).trans (if_neg (List.cons_ne_nil name names))

/-! ## Written numbers -/

theorem Token.kindOf_of_head? {value : List Char} (hsign : value.head? ≠ some namedSign)
    (hbracket : value.head? ≠ some '[') : kindOf value = .plain := by
  have hnone : bracketed? value = none := by
    unfold bracketed?
    split
    · simp at hbracket
    · rfl
  rw [kindOf, if_neg hsign, hnone]
  rfl

theorem isPlain_of_isNumeral {name : String} (hname : ∀ c ∈ name.toList, Decimal.IsNumeral c) :
    IsPlain name := by
  have hnot {c : Char} (hc : ¬ Decimal.IsNumeral c) : c ∉ name.toList :=
    fun hmem => hc (hname c hmem)
  have hdivider : ¬ HasDivider name := by
    intro hdivides
    exact hnot (by decide) (hdivides.subset (by decide : separator ∈ divider.toList))
  rw [IsPlain, parse_of_not_hasDivider hdivider]
  apply kindOf_of_head?
  · intro hhead
    exact hnot (by decide) (List.mem_of_head? hhead)
  · intro hhead
    exact hnot (by decide) (List.mem_of_head? hhead)

theorem isPlain_floatText (number : Float) : IsPlain (Decimal.floatText number) :=
  isPlain_of_isNumeral fun _ hc => Decimal.isNumeral_of_mem_floatText hc

/-! ## What the values contribute -/

namespace Contribution

mutual

/-- The plain words of a value: those of a text and of the names whose condition holds, and
the written form of a number that is neither zero nor no number. -/
def plainWords : Contribution → List String
  | .nothing | .flag _ => []
  | .number value => if value != 0 && !value.isNaN then [Decimal.floatText value] else []
  | .text names => (Text.words Text.isAsciiBlank names).filter (IsPlain ·)
  | .list items => plainWordsOfAll items
  | .map entries =>
    (entries.filter Prod.snd).flatMap fun (name, _) =>
      (Text.words Text.isAsciiBlank name).filter (IsPlain ·)

/-- The plain words of several values, in order. -/
def plainWordsOfAll : List Contribution → List String
  | [] => []
  | value :: values => value.plainWords ++ plainWordsOfAll values

end

theorem filter_wordsOfNumber (number : Float) :
    (wordsOfNumber number).filter (IsPlain ·) =
      if number != 0 && !number.isNaN then [Decimal.floatText number] else [] := by
  have hwritten : (number != 0 && !number.isNaN) = !(number == 0 || number.isNaN) :=
    (Bool.not_or _ _).symm
  rw [wordsOfNumber, hwritten]
  cases number == 0 || number.isNaN with
  | true => rfl
  | false => simp [isPlain_floatText]

mutual

theorem filter_words (value : Contribution) :
    value.words.filter (IsPlain ·) = value.plainWords := by
  cases value with
  | nothing => rfl
  | flag value => rfl
  | number value => exact filter_wordsOfNumber value
  | text names => rfl
  | list items => exact filter_wordsOfAll items
  | map entries => exact List.filter_flatMap

theorem filter_wordsOfAll (values : List Contribution) :
    (wordsOfAll values).filter (IsPlain ·) = plainWordsOfAll values := by
  cases values with
  | nil => rfl
  | cons value values =>
    rw [wordsOfAll, List.filter_append, filter_words value, filter_wordsOfAll values,
      plainWordsOfAll]

end

end Contribution

namespace Table

variable {table : Table}

theorem not_overrides_of_isPlain {later earlier : String} (hplain : IsPlain earlier) :
    ¬ table.Overrides later earlier := by
  rintro (⟨-, hstyle, -⟩ | ⟨-, hproperty, -⟩)
  · rw [hplain] at hstyle
    cases hstyle
  · cases hplain.symm.trans hproperty

theorem not_isPlain_of_overrides {later earlier : String}
    (hover : table.Overrides later earlier) : ¬ IsPlain later := by
  intro hplain
  obtain ⟨hstyle, -⟩ | ⟨hproperty, -⟩ := hover
  · rw [hplain] at hstyle
    cases hstyle
  · cases hplain.symm.trans hproperty

/-- Plain names alone are left as they are. -/
theorem resolve_of_isPlain {names : List String} (hnames : ∀ name ∈ names, IsPlain name) :
    table.resolve names = names := by
  induction names with
  | nil => rfl
  | cons name names ih =>
    obtain ⟨hname, hrest⟩ := List.forall_mem_cons.mp hnames
    have hkept : table.Survives names name := fun _ _ => not_overrides_of_isPlain hname
    rw [resolve_cons, if_pos hkept, ih hrest]

/-- Plain names survive whatever stands around them. -/
theorem filter_resolve_isPlain (table : Table) (names : List String) :
    (table.resolve names).filter (IsPlain ·) = names.filter (IsPlain ·) := by
  calc (table.resolve names).filter (IsPlain ·)
      = table.resolve (names.filter (IsPlain ·)) := by
        -- Leaving names out is harmless as long as what overrides a kept name is kept.
        symm
        apply resolve_filter fun token => token.kind = .plain
        intro later earlier hover hplain
        exact absurd hover (not_overrides_of_isPlain (of_decide_eq_true hplain))
    _ = names.filter (IsPlain ·) := by
        apply resolve_of_isPlain
        intro name hmem
        exact of_decide_eq_true (List.mem_filter.mp hmem).2

/-- The other names are resolved as if there were no plain ones. -/
theorem filter_resolve_not_isPlain (table : Table) (names : List String) :
    (table.resolve names).filter (¬ IsPlain ·) = table.resolve (names.filter (¬ IsPlain ·)) := by
  symm
  apply resolve_filter fun token => ¬ token.kind = .plain
  intro later earlier hover _
  exact decide_eq_true (not_isPlain_of_overrides hover)

theorem pieces_compose (table : Table) (values : List Contribution) :
    pieces (table.compose values) = table.resolve (Contribution.wordsOfAll values) :=
  pieces_intercalate fun _ hmem => isWord_of_mem_resolve hmem

/-- Of the words of a composed text the plain ones are all those that the values contribute,
in order and as often, among them every written number.  The others are resolved by
themselves, and without any others the text is the words with single blanks between them. -/
theorem plain_words_kept (table : Table) (values : List Contribution) :
    (pieces (table.compose values)).filter (IsPlain ·) =
        values.flatMap Contribution.plainWords ∧
      (pieces (table.compose values)).filter (¬ IsPlain ·) =
        table.resolve ((values.flatMap Contribution.words).filter (¬ IsPlain ·)) ∧
      ((∀ name ∈ values.flatMap Contribution.words, IsPlain name) →
        table.compose values = " ".intercalate (values.flatMap Contribution.words)) := by
  rw [pieces_compose, compose, resolveToText, Contribution.wordsOfAll_eq_flatMap]
  refine ⟨?_, filter_resolve_not_isPlain table _, ?_⟩
  · rw [filter_resolve_isPlain, List.filter_flatMap]
    simp only [Contribution.filter_words]
  · intro hplain
    rw [resolve_of_isPlain hplain]

/-- Names with a divider too many, with an unknown value and without any grammar, among
them repeated ones. -/
theorem builtIn_plain_words_kept :
    let values : List Contribution :=
      [.text "block  a::b::$1", .list [.flag true, .map [("md::flex\tblock", true), ("gone", false)]],
        .list [.list [.text "[a:b:c] ::"]]]
    (∀ name ∈ values.flatMap Contribution.words, IsPlain name) ∧
      builtIn.compose values = "block a::b::$1 md::flex block [a:b:c] ::" := by
  intro values
  have hwords : values.flatMap Contribution.words =
      ["block", "a::b::$1", "md::flex", "block", "[a:b:c]", "::"] := by
    decide +kernel
  have hplain : ∀ name ∈ values.flatMap Contribution.words, IsPlain name := by
    rw [hwords]
    decide +kernel
  obtain ⟨-, -, hcompose⟩ := plain_words_kept builtIn values
  refine ⟨hplain, ?_⟩
  rw [hcompose hplain, hwords]
  decide +kernel

end Table

end ClassNames
