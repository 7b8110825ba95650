import ClassNames.Token

/-!
# Reading class names

A class name is read in one of three ways, and everything that later modules need
about its parts follows from that: which texts can stand before the divider, that
every one of them does, and that a property always has a key.
-/

namespace ClassNames.Token

/-- The text can stand before a divider.  It holds no divider, and does not end in
half of one. -/
def IsQualifier (text : String) : Prop :=
  ¬ [separator, separator] <:+: text.toList ++ [separator]

/-- Nothing else can happen to a class name: it has no divider and is all value, it
is kept as it is, or it is cut at its only divider. -/
theorem parse_cases (raw : String) :
    (Text.cutDouble? separator raw.toList = none ∧
        parse raw = ⟨raw, "", raw, kindOf raw.toList⟩) ∨
      parse raw = ofPlain raw ∨
      ∃ qualifier value, raw = qualifier ++ divider ++ value ∧ IsQualifier qualifier ∧
        Text.cutDouble? separator value.toList = none ∧
        parse raw = ⟨raw, qualifier, value, kindOf value.toList⟩ := by
  cases hcut : Text.cutDouble? separator raw.toList with
  | none => exact Or.inl ⟨rfl, by simp [parse, hcut]⟩
  | some parts =>
    obtain ⟨before, after⟩ := parts
    obtain ⟨htext, hqualifier⟩ := Text.cutDouble?_eq_some_iff.mp hcut
    simp only [parse, hcut]
    split
    · exact Or.inr (Or.inl rfl)
    · next hafter =>
      split
      · exact Or.inr (Or.inl rfl)
      · refine Or.inr (Or.inr ⟨String.ofList before, String.ofList after, ?_, ?_, ?_, ?_⟩)
        · rw [← String.toList_inj, htext]
          simp [divider, separator]
        · simpa [IsQualifier] using hqualifier
        · rw [String.toList_ofList]
          exact Option.not_isSome_iff_eq_none.mp hafter
        · simp

theorem isQualifier_empty : IsQualifier "" := by
  intro hinfix
  simpa using hinfix.length_le

/-- A single segment can stand before a divider. -/
theorem isQualifier_of_not_mem {text : String} (hfree : separator ∉ text.toList) :
    IsQualifier text := by
  intro hinfix
  have hcount := hinfix.sublist.count_le separator
  rw [List.count_append, List.count_eq_zero.mpr hfree] at hcount
  simp at hcount

/-- A name is cut behind its qualifier, whatever its value holds. -/
theorem cutDouble?_append_divider {qualifier : String} (hqualifier : IsQualifier qualifier)
    (value : String) :
    Text.cutDouble? separator (qualifier ++ divider ++ value).toList =
      some (qualifier.toList, value.toList) := by
  rw [Text.cutDouble?_eq_some_iff]
  exact ⟨by simp [divider, separator], hqualifier⟩

theorem isQualifier_qualifier_parse (raw : String) : IsQualifier (parse raw).qualifier := by
  obtain ⟨-, hparse⟩ | hparse | ⟨qualifier, value, -, hqualifier, -, hparse⟩ :=
    parse_cases raw
  · rw [hparse]
    exact isQualifier_empty
  · rw [hparse]
    exact isQualifier_empty
  · rw [hparse]
    exact hqualifier

theorem kind_parse (raw : String) :
    (parse raw).kind = .plain ∨ (parse raw).kind = kindOf (parse raw).value.toList := by
  obtain ⟨-, hparse⟩ | hparse | ⟨qualifier, value, -, -, -, hparse⟩ := parse_cases raw
  · exact Or.inr (by rw [hparse])
  · exact Or.inl (by rw [hparse]; rfl)
  · exact Or.inr (by rw [hparse])

theorem kindOf_eq_property {value : List Char} (hkind : kindOf value = .property) :
    ∃ inner, bracketed? value = some inner ∧ separator ∈ inner := by
  rw [kindOf] at hkind
  split at hkind
  · cases hkind
  · split at hkind
    · cases hkind
    · next hcount =>
      obtain ⟨inner, hinner, hone⟩ := Option.map_eq_some_iff.mp hcount
      refine ⟨inner, hinner, ?_⟩
      rw [← List.count_pos_iff]
      omega
    · cases hkind

/-- A property has a key, so every property takes part in conflicts. -/
theorem exists_propertyKey?_parse {raw : String} (hkind : (parse raw).kind = .property) :
    ∃ key, (parse raw).propertyKey? = some key := by
  have hvalue : kindOf (parse raw).value.toList = .property := by
    rcases kind_parse raw with hplain | hsame
    · rw [hkind] at hplain
      cases hplain
    · exact hsame ▸ hkind
  obtain ⟨inner, hinner, hmem⟩ := kindOf_eq_property hvalue
  cases hcut : Text.cutFirst? separator inner with
  | none => exact absurd hmem (Text.cutFirst?_eq_none_iff.mp hcut)
  | some parts => exact ⟨String.ofList parts.1, by simp [propertyKey?, hkind, hinner, hcut]⟩

theorem kind_eq_property_of_propertyKey? {token : Token} {key : String}
    (hkey : token.propertyKey? = some key) : token.kind = .property := by
  rw [propertyKey?] at hkey
  split at hkey
  · assumption
  · cases hkey

theorem parse_of_cutDouble? {raw : String} {before after : List Char}
    (hcut : Text.cutDouble? separator raw.toList = some (before, after))
    (hafter : Text.cutDouble? separator after = none) (hne : before ≠ [] ∨ after ≠ []) :
    parse raw = ⟨raw, String.ofList before, String.ofList after, kindOf after⟩ := by
  have hsome : ¬ (before = [] ∧ after = []) :=
    fun hboth => hne.elim (· hboth.1) (· hboth.2)
  simp [parse, hcut, hafter, hsome]

theorem parse_of_repeated {raw : String} {before after : List Char}
    (hcut : Text.cutDouble? separator raw.toList = some (before, after))
    (hafter : (Text.cutDouble? separator after).isSome) : parse raw = ofPlain raw := by
  simp [parse, hcut, hafter]

/-- Every text that can stand before a divider is the qualifier of some style. -/
theorem exists_parse_of_isQualifier {text : String} (htext : IsQualifier text) :
    ∃ raw, (parse raw).kind.isStyle ∧ (parse raw).qualifier = text := by
  have hparse := parse_of_cutDouble? (cutDouble?_append_divider htext namedSign.toString)
    (by decide) (Or.inr (by decide))
  refine ⟨text ++ divider ++ namedSign.toString, ?_, ?_⟩
  · rw [hparse]
    exact (by decide : (kindOf [namedSign]).isStyle)
  · rw [hparse, String.ofList_toList]

end ClassNames.Token
