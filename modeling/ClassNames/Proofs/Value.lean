import ClassNames.Proofs.Reading

/-!
# Values

The kind of a value is settled by a dollar sign at its start, or by the number of separators
between its brackets.  The value of a token holds no divider, which between brackets takes
two separators.
-/

namespace ClassNames.Token

/-- The text holds a divider. -/
def HasDivider (text : String) : Prop :=
  divider.toList <:+: text.toList

theorem cutDouble?_eq_none_iff_not_hasDivider {text : String} :
    Text.cutDouble? separator text.toList = none ↔ ¬ HasDivider text :=
  Text.cutDouble?_eq_none_iff

theorem isSome_cutDouble?_iff_hasDivider {text : String} :
    (Text.cutDouble? separator text.toList).isSome ↔ HasDivider text := by
  rw [Option.isSome_iff_ne_none, ne_eq, cutDouble?_eq_none_iff_not_hasDivider,
    Classical.not_not]

instance (text : String) : Decidable (HasDivider text) :=
  decidable_of_decidable_of_iff isSome_cutDouble?_iff_hasDivider

/-- A text can stand before a divider if it holds none and does not end in a separator. -/
theorem isQualifier_iff {text : String} :
    IsQualifier text ↔ ¬ HasDivider text ∧ text.toList.getLast? ≠ some separator := by
  have hlast : [separator, separator] <:+ text.toList ++ [separator] ↔
      text.toList.getLast? = some separator := by
    change [separator] ++ [separator] <:+ text.toList ++ [separator] ↔ _
    rw [List.suffix_append_self_iff, List.getLast?_eq_some_iff,
      List.suffix_iff_exists_eq_append]
  rw [IsQualifier, List.infix_concat_iff, hlast, not_or, and_comm]
  rfl

/-! ## Named values -/

/-- The value with the name behind a dollar sign. -/
def signed (name : String) : String := namedSign.toString ++ name

@[simp]
theorem toList_signed (name : String) : (signed name).toList = namedSign :: name.toList := by
  simp [signed]

theorem signed_injective : Function.Injective signed := by
  intro left right heq
  have hlist := congrArg String.toList heq
  rw [toList_signed, toList_signed] at hlist
  exact String.toList_inj.mp (List.cons.inj hlist).2

theorem kindOf_signed (name : String) : kindOf (signed name).toList = .named := by
  rw [kindOf, toList_signed]
  rfl

theorem hasDivider_signed_iff {name : String} : HasDivider (signed name) ↔ HasDivider name := by
  rw [HasDivider, HasDivider, toList_signed, List.infix_cons_iff]
  apply or_iff_right
  intro hstart
  cases (List.cons_prefix_cons.mp hstart).1

/-! ## Values between brackets -/

/-- The value with the text between brackets. -/
def brackets (text : String) : String := "[" ++ text ++ "]"

/-- The property that a text between brackets sets, if it holds one separator. -/
def keyText? (text : String) : Option (List Char) :=
  (Text.cutFirst? separator text.toList).map Prod.fst

@[simp]
theorem bracketed?_brackets (text : String) :
    bracketed? (brackets text).toList = some text.toList := by
  simp [brackets, bracketed?]

theorem brackets_injective : Function.Injective brackets := by
  intro left right heq
  have hinner := congrArg (fun text => bracketed? text.toList) heq
  simp only [bracketed?_brackets, Option.some.injEq] at hinner
  exact String.toList_inj.mp hinner

theorem eq_brackets_of_bracketed? {text : String} {inner : List Char}
    (hinner : bracketed? text.toList = some inner) : text = brackets (String.ofList inner) := by
  unfold bracketed? at hinner
  split at hinner
  · next rest htext =>
    by_cases hlast : rest.getLast? = some ']'
    · rw [if_pos hlast] at hinner
      obtain rfl := Option.some.inj hinner
      obtain ⟨front, rfl⟩ := List.getLast?_eq_some_iff.mp hlast
      rw [← String.toList_inj, htext]
      simp [brackets]
    · rw [if_neg hlast] at hinner
      cases hinner
  · cases hinner

theorem count_brackets (text : String) :
    (brackets text).toList.count separator = text.toList.count separator := by
  simp [brackets, separator]

theorem kindOf_brackets (text : String) :
    kindOf (brackets text).toList =
      if text.toList.count separator = 0 then .argument
      else if text.toList.count separator = 1 then .property
      else .plain := by
  have hhead : (brackets text).toList.head? ≠ some namedSign := by
    simp [brackets, namedSign]
  rw [kindOf, if_neg hhead, bracketed?_brackets, Option.map_some]
  generalize text.toList.count separator = count
  rcases count with _ | _ | count
  · rfl
  · rfl
  · rw [if_neg (by omega), if_neg (by omega)]
    rfl

theorem isStyle_brackets_iff {text : String} :
    (kindOf (brackets text).toList).isStyle ↔ text.toList.count separator = 0 := by
  rw [kindOf_brackets]
  by_cases hnone : text.toList.count separator = 0
  · simp [hnone, Kind.isStyle]
  · by_cases hone : text.toList.count separator = 1
    · simp [hone, Kind.isStyle]
    · simp [hnone, hone, Kind.isStyle]

theorem property_brackets_iff {text : String} :
    kindOf (brackets text).toList = .property ↔ text.toList.count separator = 1 := by
  rw [kindOf_brackets]
  by_cases hnone : text.toList.count separator = 0
  · simp [hnone]
  · by_cases hone : text.toList.count separator = 1
    · simp [hone]
    · simp [hnone, hone]

theorem propertyKey?_brackets {token : Token} {text : String} (hkind : token.kind = .property)
    (hvalue : token.value = brackets text) :
    token.propertyKey? = (keyText? text).map String.ofList := by
  rw [propertyKey?, hkind, hvalue, keyText?]
  cases hcut : Text.cutFirst? separator text.toList with
  | none => simp [hcut]
  | some parts => simp [hcut]

theorem cutFirst?_join {key : String} (hkey : separator ∉ key.toList) (content : String) :
    Text.cutFirst? separator (key ++ separator.toString ++ content).toList =
      some (key.toList, content.toList) :=
  Text.cutFirst?_eq_some_iff.mpr ⟨by simp, hkey⟩

theorem keyText?_join {key : String} (hkey : separator ∉ key.toList) (content : String) :
    keyText? (key ++ separator.toString ++ content) = some key.toList := by
  rw [keyText?, cutFirst?_join hkey, Option.map_some]

theorem keyText?_eq_takeWhile {text : String} (hmem : separator ∈ text.toList) :
    keyText? text = some (text.toList.takeWhile (· ≠ separator)) := by
  rw [keyText?]
  cases hcut : Text.cutFirst? separator text.toList with
  | none => exact absurd hmem (Text.cutFirst?_eq_none_iff.mp hcut)
  | some parts =>
    obtain ⟨before, after⟩ := parts
    obtain ⟨htext, hfree⟩ := Text.cutFirst?_eq_some_iff.mp hcut
    have hbefore : ∀ c ∈ before, decide (c ≠ separator) = true := by
      intro c hc
      exact decide_eq_true fun heq => hfree (heq ▸ hc)
    rw [htext, List.takeWhile_append_of_pos hbefore]
    simp

/-- A divider between the brackets takes two separators. -/
theorem not_hasDivider_brackets {text : String} (hcount : text.toList.count separator < 2) :
    ¬ HasDivider (brackets text) := by
  intro hdivider
  have htwo : divider.toList.count separator = 2 := by decide
  have hle := hdivider.sublist.count_le separator
  rw [count_brackets, htwo] at hle
  omega

/-! ## Reading a value -/

/-- Without a divider the name is all value. -/
theorem parse_of_not_hasDivider {raw : String} (hraw : ¬ HasDivider raw) :
    parse raw = ⟨raw, "", raw, kindOf raw.toList⟩ := by
  simp [parse, cutDouble?_eq_none_iff_not_hasDivider.mpr hraw]

/-- Behind a qualifier the value is read back if it holds no divider. -/
theorem parse_append_divider {qualifier value : String} (hqualifier : IsQualifier qualifier)
    (hvalue : ¬ HasDivider value) (hne : value ≠ "") :
    parse (qualifier ++ divider ++ value) =
      ⟨qualifier ++ divider ++ value, qualifier, value, kindOf value.toList⟩ := by
  rw [parse_of_cutDouble? (cutDouble?_append_divider hqualifier value)
    (cutDouble?_eq_none_iff_not_hasDivider.mpr hvalue) (Or.inr (by simpa using hne)),
    String.ofList_toList, String.ofList_toList]

end ClassNames.Token
