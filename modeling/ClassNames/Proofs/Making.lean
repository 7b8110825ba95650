import ClassNames.Path
import ClassNames.Proofs.Qualifier
import ClassNames.Proofs.Value

/-!
# Names made on a path

A path joins its segments, puts the divider behind them and then a value.  Segments that
are not empty and hold no separator give a qualifier without a divider, which does not end
in half of one either.  So the first divider of the name is the one that the path put there,
and the reader takes the name apart where it was put together.

What the value holds is not checked.  A divider in it, or a second separator between its
brackets, makes a name that is plain, unless the path is empty: then a name with a divider
in its value is cut there.
-/

namespace ClassNames

open Token

namespace Path

variable {path : Path}

/-! ## Segments -/

/-- Every segment can be read as one: it is not empty and holds no separator. -/
def WellFormed (path : Path) : Prop :=
  ∀ segment ∈ path.segments, segment ≠ "" ∧ separator ∉ segment.toList

instance (path : Path) : Decidable path.WellFormed :=
  inferInstanceAs (Decidable (∀ segment ∈ path.segments, _))

theorem wellFormed_push_iff {segment : String} :
    (path.push segment).WellFormed ↔
      path.WellFormed ∧ segment ≠ "" ∧ separator ∉ segment.toList := by
  simp only [WellFormed, push, List.forall_mem_append, List.forall_mem_singleton]

theorem eq_empty_or_push (path : Path) :
    path = empty ∨ ∃ front last, path = push front last := by
  obtain ⟨segments⟩ := path
  obtain rfl | ⟨front, last, rfl⟩ := List.eq_nil_or_concat segments
  · exact Or.inl rfl
  · exact Or.inr ⟨⟨front⟩, last, by simp [push]⟩

theorem qualifier_ne_empty (hpath : path.WellFormed) (hne : path.segments ≠ []) :
    path.qualifier ≠ "" := by
  obtain ⟨first, rest, hsegments⟩ := List.exists_cons_of_ne_nil hne
  have hfirst : first ≠ "" := (hpath first (by simp [hsegments])).1
  rw [qualifier, hsegments]
  exact Text.intercalate_ne_empty hfirst rest

theorem qualifier_push (hpath : path.WellFormed) (segment : String) :
    (path.push segment).qualifier = qualify path.qualifier segment := by
  rw [qualify]
  by_cases hempty : path.segments = []
  · have hqualifier : path.qualifier = "" := by rw [qualifier, hempty, String.intercalate_nil]
    rw [hqualifier]
    simp [qualifier, push, hempty]
  · rw [if_neg (by simpa [String.isEmpty_iff] using qualifier_ne_empty hpath hempty), qualifier,
      push, String.intercalate_append_of_ne_nil hempty (by simp), String.intercalate_singleton,
      qualifier]

theorem splitQualifier_qualifier_push {segment : String}
    (hpath : (path.push segment).WellFormed) :
    splitQualifier (path.push segment).qualifier = (path.qualifier, segment) := by
  obtain ⟨hfront, -, hfree⟩ := wellFormed_push_iff.mp hpath
  rw [qualifier_push hfront, splitQualifier_qualify _ hfree]

/-- Joined segments hold no doubled separator, and do not end in half of one. -/
theorem cutDouble?_intercalate {segments : List (List Char)}
    (hsegments : ∀ segment ∈ segments, segment ≠ [] ∧ separator ∉ segment) :
    Text.cutDouble? separator ([separator].intercalate segments ++ [separator]) = none := by
  induction segments with
  | nil => decide
  | cons segment segments ih =>
    obtain ⟨hsegment, hrest⟩ := List.forall_mem_cons.mp hsegments
    cases segments with
    | nil =>
      rw [List.intercalate_singleton, Text.cutDouble?_append_cons hsegment.2 (by simp)]
      rfl
    | cons next segments =>
      obtain ⟨hnext, -⟩ := List.forall_mem_cons.mp hrest
      obtain ⟨c, tail, rfl⟩ := List.exists_cons_of_ne_nil hnext.1
      have hhead : ([separator].intercalate ((c :: tail) :: segments) ++ [separator]).head? ≠
          some separator := by
        have hc : c ≠ separator := fun heq => hnext.2 (heq ▸ List.mem_cons_self)
        cases segments <;> simpa using hc
      rw [List.intercalate_cons_cons, List.append_assoc, List.append_assoc,
        List.singleton_append, Text.cutDouble?_append_cons hsegment.2 hhead, ih hrest]
      rfl

theorem WellFormed.isQualifier (hpath : path.WellFormed) : IsQualifier path.qualifier := by
  have hsegments : ∀ segment ∈ path.segments.map String.toList,
      segment ≠ [] ∧ separator ∉ segment := by
    intro text hmem
    obtain ⟨segment, hsegment, rfl⟩ := List.mem_map.mp hmem
    obtain ⟨hne, hfree⟩ := hpath segment hsegment
    exact ⟨by simpa using hne, hfree⟩
  rw [IsQualifier, ← Text.cutDouble?_eq_none_iff, qualifier, String.toList_intercalate]
  exact cutDouble?_intercalate hsegments

/-! ## What stands before the value -/

/-- The token has the segments of the path before its value: the last one is its group, and
the others are its modifiers. -/
structure Heads (path : Path) (token : Token) : Prop where
  qualifier : token.qualifier = separator.toString.intercalate path.segments
  segments : path.segments ≠ [] →
    (token.qualifier.split separator).toList.map (·.copy) = path.segments
  group : token.group? = path.segments.getLast?
  modifiers : token.modifiers = separator.toString.intercalate path.segments.dropLast

theorem heads_of_qualifier_eq (hpath : path.WellFormed) {token : Token}
    (hqualifier : token.qualifier = path.qualifier) : path.Heads token := by
  refine ⟨hqualifier, ?_, ?_, ?_⟩
  · intro hne
    have hfree : ∀ segment ∈ path.segments, separator ∉ segment.toList :=
      fun segment hmem => (hpath segment hmem).2
    rw [hqualifier, qualifier]
    exact (String.toList_split_intercalate hfree).trans (if_neg hne)
  · obtain rfl | ⟨front, last, rfl⟩ := path.eq_empty_or_push
    · exact group?_eq_none_iff.mpr hqualifier
    · have hne := qualifier_ne_empty hpath (by simp [push])
      rw [push, List.getLast?_concat, group?_eq_some_iff, hqualifier,
        splitQualifier_qualifier_push hpath]
      exact ⟨hne, rfl⟩
  · rw [Token.modifiers, hqualifier]
    obtain rfl | ⟨front, last, rfl⟩ := path.eq_empty_or_push
    · rfl
    · rw [splitQualifier_qualifier_push hpath, push, List.dropLast_concat, qualifier]

/-! ## What the value is made of -/

/-- What stands between the brackets of a name. -/
def inner (arguments : List String) : String :=
  separator.toString.intercalate (arguments.map sanitize)

theorem toList_sanitize (argument : String) :
    (sanitize argument).toList =
      ['_', '_'].intercalate (Text.wordsOfList Text.isBlank argument.toList) := by
  rw [sanitize, String.toList_intercalate, Text.words, List.map_map]
  simp [Function.comp_def]

/-- Cleaning an argument adds no separator and takes none away. -/
theorem count_sanitize (argument : String) :
    (sanitize argument).toList.count separator = argument.toList.count separator := by
  rw [toList_sanitize, Text.count_intercalate (by decide), Text.flatten_wordsOfList,
    List.count_filter (by decide)]

theorem dropNamedSign_signed (name : String) : dropNamedSign (signed name) = name := by
  simp [dropNamedSign]

theorem dropNamedSign_of_head?_ne {value : String}
    (hhead : value.toList.head? ≠ some namedSign) : dropNamedSign value = value := by
  unfold dropNamedSign
  split
  · next c rest hvalue =>
    rw [hvalue, List.head?_cons] at hhead
    rw [if_neg (fun heq => hhead (congrArg some heq))]
  · rfl

/-- A value is its name, or its name behind the dollar sign. -/
theorem dropNamedSign_eq_iff {value name : String} :
    dropNamedSign value = name ↔
      value = signed name ∨ (value = name ∧ name.toList.head? ≠ some namedSign) := by
  constructor
  · rintro rfl
    by_cases hhead : value.toList.head? = some namedSign
    · obtain ⟨rest, hvalue⟩ := List.head?_eq_some_iff.mp hhead
      obtain rfl : value = signed (String.ofList rest) := by
        rw [← String.toList_inj, hvalue, toList_signed, String.toList_ofList]
      exact Or.inl (by rw [dropNamedSign_signed])
    · rw [dropNamedSign_of_head?_ne hhead]
      exact Or.inr ⟨rfl, hhead⟩
  · rintro (rfl | ⟨rfl, hhead⟩)
    · exact dropNamedSign_signed name
    · exact dropNamedSign_of_head?_ne hhead

theorem dropNamedSign_eq_empty_iff {value : String} :
    dropNamedSign value = "" ↔ value = "" ∨ value = namedSign.toString := by
  have hsigned : signed "" = namedSign.toString := by decide
  rw [dropNamedSign_eq_iff, hsigned, or_comm]
  simp

theorem bracketed_eq (path : Path) (arguments : List String) :
    path.bracketed arguments = path.attach (brackets (inner arguments)) := rfl

theorem argument_eq (path : Path) (value : String) :
    path.argument value = path.attach (brackets (sanitize value)) := rfl

theorem named_eq (path : Path) (value : String) :
    path.named value =
      if dropNamedSign value = "" then .error (.emptyNamedValue path.dotted)
      else .ok (path.attach (signed (dropNamedSign value))) := by
  simp only [named, signed, String.isEmpty_iff]

theorem arguments_eq (path : Path) (values : List String) :
    path.arguments values =
      if values = [] then .error (.missingArguments path.dotted)
      else .ok (path.attach (brackets (inner values))) := by
  simp only [arguments, List.isEmpty_iff, bracketed_eq]

theorem arguments_eq_ok (path : Path) {values : List String} (hne : values ≠ []) :
    path.arguments values = .ok (path.bracketed values) := by
  rw [arguments_eq, if_neg hne, bracketed_eq]

/-! ## Reading what is made -/

theorem attach_of_empty (hempty : path.segments = []) (value : String) :
    path.attach value = value := by
  simp [attach, hempty]

theorem attach_of_ne (hne : path.segments ≠ []) (value : String) :
    path.attach value = path.qualifier ++ divider ++ value := by
  simp [attach, hne]

/-- A value without a divider is read back under the qualifier of the path. -/
theorem parse_attach (hpath : path.WellFormed) {value : String}
    (hvalue : ¬ HasDivider value) (hne : value ≠ "") :
    parse (path.attach value) =
      ⟨path.attach value, path.qualifier, value, kindOf value.toList⟩ := by
  by_cases hempty : path.segments = []
  · have hqualifier : path.qualifier = "" := by simp [qualifier, hempty]
    rw [attach_of_empty hempty, hqualifier]
    exact parse_of_not_hasDivider hvalue
  · rw [attach_of_ne hempty]
    exact parse_append_divider hpath.isQualifier hvalue hne

/-- Behind a path a second divider makes the name plain. -/
theorem parse_attach_of_hasDivider (hpath : path.WellFormed) (hne : path.segments ≠ [])
    {value : String} (hvalue : HasDivider value) :
    parse (path.attach value) = ofPlain (path.attach value) := by
  rw [attach_of_ne hne]
  exact parse_of_repeated (cutDouble?_append_divider hpath.isQualifier value)
    (isSome_cutDouble?_iff_hasDivider.mpr hvalue)

theorem parse_attach_brackets (hpath : path.WellFormed) {text : String}
    (hcount : text.toList.count separator < 2) :
    parse (path.attach (brackets text)) =
      ⟨path.attach (brackets text), path.qualifier, brackets text,
        kindOf (brackets text).toList⟩ :=
  parse_attach hpath (not_hasDivider_brackets hcount) (by simp [brackets])

/-- Behind a path the text between the brackets alone decides about the kind, also when it
holds a divider. -/
theorem kind_parse_attach_brackets (hpath : path.WellFormed) (hne : path.segments ≠ [])
    (text : String) :
    (parse (path.attach (brackets text))).kind = kindOf (brackets text).toList := by
  by_cases hvalue : HasDivider (brackets text)
  · have hmany : ¬ text.toList.count separator < 2 :=
      fun hcount => not_hasDivider_brackets hcount hvalue
    rw [parse_attach_of_hasDivider hpath hne hvalue, kindOf_brackets, if_neg (by omega),
      if_neg (by omega)]
    rfl
  · rw [parse_attach hpath hvalue (by simp [brackets])]

/-- What is read of a name that is made of a named value. -/
structure ReadsNamed (path : Path) (name made : String) : Prop where
  named : ¬ HasDivider name →
    (parse made).kind = .named ∧ (parse made).value = signed name ∧ path.Heads (parse made)
  plain : HasDivider name → path.segments ≠ [] → (parse made).kind = .plain

/-- What is read of a name that is made of a text between brackets. -/
structure ReadsBrackets (path : Path) (text made : String) : Prop where
  argument : text.toList.count separator = 0 →
    (parse made).kind = .argument ∧ (parse made).value = brackets text ∧
      path.Heads (parse made)
  property : text.toList.count separator = 1 →
    (parse made).kind = .property ∧ (parse made).value = brackets text ∧
      (parse made).propertyKey? =
        some (String.ofList (text.toList.takeWhile (· ≠ separator))) ∧
      path.Heads (parse made)
  plain : 2 ≤ text.toList.count separator → path.segments ≠ [] → (parse made).kind = .plain

theorem readsNamed_attach (hpath : path.WellFormed) (name : String) :
    path.ReadsNamed name (path.attach (signed name)) := by
  constructor
  · intro hname
    have hvalue : ¬ HasDivider (signed name) := fun hdivider =>
      hname (hasDivider_signed_iff.mp hdivider)
    rw [parse_attach hpath hvalue (by simp [signed])]
    exact ⟨kindOf_signed name, rfl, heads_of_qualifier_eq hpath rfl⟩
  · intro hname hne
    rw [parse_attach_of_hasDivider hpath hne (hasDivider_signed_iff.mpr hname)]
    rfl

theorem readsBrackets_attach (hpath : path.WellFormed) (text : String) :
    path.ReadsBrackets text (path.attach (brackets text)) := by
  constructor
  · intro hnone
    rw [parse_attach_brackets hpath (by omega)]
    refine ⟨?_, rfl, heads_of_qualifier_eq hpath rfl⟩
    rw [kindOf_brackets, if_pos hnone]
  · intro hone
    have hkind := property_brackets_iff.mpr hone
    have hmem : separator ∈ text.toList := List.count_pos_iff.mp (by omega)
    rw [parse_attach_brackets hpath (by omega), propertyKey?_brackets hkind rfl,
      keyText?_eq_takeWhile hmem]
    exact ⟨hkind, rfl, rfl, heads_of_qualifier_eq hpath rfl⟩
  · intro hmany hne
    rw [kind_parse_attach_brackets hpath hne, kindOf_brackets, if_neg (by omega),
      if_neg (by omega)]

/-- Making fails for nothing but a missing name or missing arguments, and reading undoes
it.  The name, the key and the segments come back as they went in, unless a separator too
many has made the name plain. -/
theorem parse_undoes_making (hpath : path.WellFormed) :
    (∀ value,
      (path.named value = .error (.emptyNamedValue path.dotted) ↔
        value = "" ∨ value = namedSign.toString) ∧
      (value ≠ "" → value ≠ namedSign.toString → ∃ made, path.named value = .ok made ∧
        path.ReadsNamed (dropNamedSign value) made)) ∧
    ∀ values,
      (path.arguments values = .error (.missingArguments path.dotted) ↔ values = []) ∧
      (values ≠ [] → ∃ made, path.arguments values = .ok made ∧
        path.ReadsBrackets (inner values) made) := by
  constructor
  · intro value
    rw [named_eq, ← dropNamedSign_eq_empty_iff]
    constructor
    · split
      · next hempty => simp [hempty]
      · next hne => simp [hne]
    · intro hvalue hsign
      have hne : dropNamedSign value ≠ "" := fun hempty =>
        (dropNamedSign_eq_empty_iff.mp hempty).elim hvalue hsign
      rw [if_neg hne]
      exact ⟨_, rfl, readsNamed_attach hpath _⟩
  · intro values
    rw [arguments_eq]
    constructor
    · split
      · next hempty => simp [hempty]
      · next hne => simp [hne]
    · intro hne
      rw [if_neg hne]
      exact ⟨_, rfl, readsBrackets_attach hpath _⟩

/-- Both kinds of names behind a modifier and a group. -/
theorem parse_undoes_making_md_p :
    let path : Path := ⟨["md", "p"]⟩
    path.WellFormed ∧
      (∃ made, path.named "$2_5" = .ok made ∧ (parse made).kind = .named ∧
        (parse made).value = "$2_5" ∧ path.Heads (parse made)) ∧
      ∃ made, path.arguments ["padding", "10px 2em"] = .ok made ∧
        (parse made).kind = .property ∧ (parse made).propertyKey? = some "padding" ∧
        path.Heads (parse made) := by
  intro path
  have hpath : path.WellFormed := by decide +kernel
  obtain ⟨hnamed, harguments⟩ := parse_undoes_making hpath
  obtain ⟨name, hname, hread⟩ := (hnamed "$2_5").2 (by decide) (by decide)
  obtain ⟨property, hproperty, hreads⟩ :=
    (harguments ["padding", "10px 2em"]).2 (List.cons_ne_nil _ _)
  have hdrop : dropNamedSign "$2_5" = "2_5" := by decide +kernel
  rw [hdrop] at hread
  obtain ⟨hkind, hvalue, hheads⟩ := hread.named (by decide +kernel)
  obtain ⟨hkind', -, hkey, hheads'⟩ := hreads.property (by decide +kernel)
  have htext : String.ofList ((inner ["padding", "10px 2em"]).toList.takeWhile
      (· ≠ separator)) = "padding" := by
    decide +kernel
  rw [htext] at hkey
  exact ⟨hpath, ⟨name, hname, hkind, hvalue, hheads⟩,
    ⟨property, hproperty, hkind', hkey, hheads'⟩⟩

end Path

end ClassNames
