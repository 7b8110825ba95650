import ClassNames.Proofs.Qualifier
import ClassNames.Proofs.Value

/-!
# The grammar of class names

A class name of a kind other than plain is derived from a value, alone or behind a qualifier
and the divider.  The reader accepts the names that are derived, and no others, and gives
back the parts that they are derived from.  As it gives back one answer, no name is derived
in two ways.

What is read of any name can be put together again, also of a plain one, and the group of a
qualifier is never empty: the first place for a divider is taken, so no separator is left
at the end of the qualifier.
-/

namespace ClassNames.Token

/-! ## Values -/

/-- A value that is not plain, in its parts. -/
inductive Value where
  | named (name : String)
  | argument (content : String)
  | property (key content : String)

namespace Value

/-- The value as it is written. -/
def text : Value → String
  | named name => signed name
  | argument content => brackets content
  | property key content => brackets (key ++ separator.toString ++ content)

def kind : Value → Kind
  | named _ => .named
  | argument _ => .argument
  | property _ _ => .property

/-- The property that the value sets. -/
def key? : Value → Option String
  | property key _ => some key
  | named _ | argument _ => none

/-- No part between brackets holds a separator. -/
def HasFreeParts : Value → Prop
  | named _ => True
  | argument content => separator ∉ content.toList
  | property key content => separator ∉ key.toList ∧ separator ∉ content.toList

theorem kind_ne_plain (value : Value) : value.kind ≠ .plain := by
  cases value <;> exact nofun

theorem text_ne_empty (value : Value) : value.text ≠ "" := by
  cases value <;> simp [text, signed, brackets]

theorem kindOf_text {value : Value} (hvalue : value.HasFreeParts) :
    kindOf value.text.toList = value.kind := by
  cases value with
  | named name => exact kindOf_signed name
  | argument content =>
    rw [text, kindOf_brackets, if_pos (List.count_eq_zero.mpr hvalue), kind]
  | property key content =>
    obtain ⟨hkey, hcontent⟩ := hvalue
    rw [text, property_brackets_iff.mpr ?_, kind]
    simp [List.count_eq_zero.mpr hkey, List.count_eq_zero.mpr hcontent]

/-- One separator in a text leaves none before it and none behind it. -/
theorem exists_split_of_count_eq_one {text : List Char} (hone : text.count separator = 1) :
    ∃ before after, text = before ++ separator :: after ∧ separator ∉ before ∧
      separator ∉ after := by
  have hmem : separator ∈ text := List.count_pos_iff.mp (by omega)
  obtain ⟨before, after, rfl, hbefore⟩ := List.eq_append_cons_of_mem hmem
  rw [List.count_append, List.count_cons_self] at hone
  exact ⟨before, after, rfl, hbefore, List.count_eq_zero.mp (by omega)⟩

theorem propertyKey?_of_text {value : Value} (hvalue : value.HasFreeParts) {token : Token}
    (htext : token.value = value.text) (hkind : token.kind = value.kind) :
    token.propertyKey? = value.key? := by
  cases value with
  | named name => rw [propertyKey?, hkind, kind, key?]
  | argument content => rw [propertyKey?, hkind, kind, key?]
  | property key content =>
    rw [propertyKey?_brackets hkind htext, keyText?_join hvalue.1, key?, Option.map_some,
      String.ofList_toList]

theorem eq_of_text_eq {left right : Value} (hleft : left.HasFreeParts)
    (hright : right.HasFreeParts) (heq : left.text = right.text) : left = right := by
  have hkind : left.kind = right.kind := by
    rw [← kindOf_text hleft, ← kindOf_text hright, heq]
  cases left with
  | named name =>
    cases right with
    | named other => exact congrArg named (signed_injective heq)
    | argument content => cases hkind
    | property key content => cases hkind
  | argument content =>
    cases right with
    | named name => cases hkind
    | argument other => exact congrArg argument (brackets_injective heq)
    | property key other => cases hkind
  | property key content =>
    cases right with
    | named name => cases hkind
    | argument other => cases hkind
    | property other rest =>
      have hinner := brackets_injective heq
      have hcut := cutFirst?_join hleft.1 content
      rw [hinner, cutFirst?_join hright.1 rest] at hcut
      obtain ⟨hkey, hcontent⟩ := Prod.mk.inj (Option.some.inj hcut)
      rw [String.toList_inj.mp hkey, String.toList_inj.mp hcontent]

/-- Brackets with at most one separator in them are the text of a value. -/
theorem exists_text_eq_brackets {inner : String}
    (hkind : kindOf (brackets inner).toList ≠ .plain) :
    ∃ value : Value, value.HasFreeParts ∧ value.text = brackets inner := by
  rw [kindOf_brackets] at hkind
  by_cases hnone : inner.toList.count separator = 0
  · exact ⟨argument inner, List.count_eq_zero.mp hnone, rfl⟩
  · by_cases hone : inner.toList.count separator = 1
    · obtain ⟨key, content, hinner, hkey, hcontent⟩ := exists_split_of_count_eq_one hone
      refine ⟨property (String.ofList key) (String.ofList content), ?_, ?_⟩
      · rw [HasFreeParts, String.toList_ofList, String.toList_ofList]
        exact ⟨hkey, hcontent⟩
      · apply congrArg brackets
        rw [← String.toList_inj, hinner]
        simp
    · rw [if_neg hnone, if_neg hone] at hkind
      exact absurd rfl hkind

/-- Every text of a kind other than plain is the text of a value. -/
theorem exists_text_eq {text : String} (hkind : kindOf text.toList ≠ .plain) :
    ∃ value : Value, value.HasFreeParts ∧ value.text = text := by
  by_cases hsign : text.toList.head? = some namedSign
  · obtain ⟨name, htext⟩ := List.head?_eq_some_iff.mp hsign
    refine ⟨named (String.ofList name), trivial, ?_⟩
    rw [Value.text, ← String.toList_inj, toList_signed, String.toList_ofList, htext]
  · cases hinner : bracketed? text.toList with
    | none =>
      apply absurd _ hkind
      rw [kindOf, if_neg hsign, hinner]
      rfl
    | some inner =>
      obtain rfl := eq_brackets_of_bracketed? hinner
      exact exists_text_eq_brackets hkind

end Value

/-! ## Class names -/

/-- How a class name is put together: a value alone, or a qualifier, which may be empty,
the divider and a value.  There is no other divider in it, and none that begins with the
end of the qualifier. -/
structure Derivation where
  qualifier? : Option String
  value : Value
  qualifier_free : ∀ qualifier ∈ qualifier?,
    ¬ HasDivider qualifier ∧ qualifier.toList.getLast? ≠ some separator
  parts_free : value.HasFreeParts
  value_free : ¬ HasDivider value.text

namespace Derivation

/-- The class name that is derived. -/
def text (derivation : Derivation) : String :=
  match derivation.qualifier? with
  | none => derivation.value.text
  | some qualifier => qualifier ++ divider ++ derivation.value.text

/-- The parts of the class name.  A value alone has the empty qualifier. -/
def token (derivation : Derivation) : Token :=
  ⟨derivation.text, derivation.qualifier?.getD "", derivation.value.text,
    derivation.value.kind⟩

theorem append_divider_ne_self (qualifier value : String) :
    qualifier ++ divider ++ value ≠ value := by
  intro heq
  have hlength := congrArg (fun text => text.toList.length) heq
  simp only [String.toList_append, List.length_append] at hlength
  have htwo : divider.toList.length = 2 := by decide
  omega

/-- A class name that is derived is read as its parts. -/
theorem parse_text (derivation : Derivation) : parse derivation.text = derivation.token := by
  obtain ⟨qualifier?, value, hqualifier, hparts, hvalue⟩ := derivation
  cases qualifier? with
  | none =>
    have hread := parse_of_not_hasDivider hvalue
    rw [Value.kindOf_text hparts] at hread
    exact hread
  | some qualifier =>
    have hread := parse_append_divider (isQualifier_iff.mpr (hqualifier qualifier rfl)) hvalue
      value.text_ne_empty
    rw [Value.kindOf_text hparts] at hread
    exact hread

theorem text_injective : Function.Injective text := by
  intro left right heq
  have htoken : left.token = right.token := by
    rw [← parse_text left, ← parse_text right, heq]
  have hvalue : left.value = right.value :=
    Value.eq_of_text_eq left.parts_free right.parts_free (congrArg Token.value htoken)
  have hgetD : left.qualifier?.getD "" = right.qualifier?.getD "" :=
    congrArg Token.qualifier htoken
  obtain ⟨leftQualifier?, value, _, _, _⟩ := left
  obtain ⟨rightQualifier?, other, _, _, _⟩ := right
  obtain rfl : value = other := hvalue
  -- The empty qualifier reads like none, but leaves its divider in the text.
  cases leftQualifier? with
  | none =>
    cases rightQualifier? with
    | none => rfl
    | some qualifier => exact absurd heq.symm (append_divider_ne_self qualifier value.text)
  | some qualifier =>
    cases rightQualifier? with
    | none => exact absurd heq (append_divider_ne_self qualifier value.text)
    | some other =>
      obtain rfl : qualifier = other := hgetD
      rfl

/-- Every class name that is not plain is derived. -/
theorem exists_text_eq {raw : String} (hkind : (parse raw).kind ≠ .plain) :
    ∃ derivation : Derivation, derivation.text = raw := by
  obtain ⟨hraw, hparse⟩ | hparse | ⟨qualifier, value, rfl, hqualifier, hvalue, hparse⟩ :=
    parse_cases raw
  · rw [hparse] at hkind
    obtain ⟨value, hparts, rfl⟩ := Value.exists_text_eq hkind
    exact ⟨⟨none, value, nofun, hparts, cutDouble?_eq_none_iff_not_hasDivider.mp hraw⟩, rfl⟩
  · rw [hparse] at hkind
    exact absurd rfl hkind
  · rw [hparse] at hkind
    obtain ⟨value, hparts, rfl⟩ := Value.exists_text_eq hkind
    have hfree : ∀ text ∈ some qualifier,
        ¬ HasDivider text ∧ text.toList.getLast? ≠ some separator := by
      intro text htext
      obtain rfl := Option.mem_some_iff.mp htext
      exact isQualifier_iff.mp hqualifier
    exact ⟨⟨some qualifier, value, hfree, hparts,
      cutDouble?_eq_none_iff_not_hasDivider.mp hvalue⟩, rfl⟩

theorem kind_parse_ne_plain_iff (raw : String) :
    (parse raw).kind ≠ .plain ↔ ∃ derivation : Derivation, derivation.text = raw := by
  constructor
  · exact exists_text_eq
  · rintro ⟨derivation, rfl⟩
    rw [parse_text]
    exact derivation.value.kind_ne_plain

end Derivation

/-! ## The parts of any class name -/

theorem propertyKey?_of_kind_ne {token : Token} (hkind : token.kind ≠ .property) :
    token.propertyKey? = none := by
  rw [Option.eq_none_iff_forall_ne_some]
  intro key hkey
  exact hkind (kind_eq_property_of_propertyKey? hkey)

/-- The parts of a name put together again are the name. -/
theorem parse_reassembles (raw : String) :
    ((parse raw).qualifier = "" ∧ (parse raw).value = raw) ∨
      raw = (parse raw).qualifier ++ divider ++ (parse raw).value := by
  obtain ⟨-, hparse⟩ | hparse | ⟨qualifier, value, hraw, -, -, hparse⟩ := parse_cases raw
  · rw [hparse]
    exact Or.inl ⟨rfl, rfl⟩
  · rw [hparse]
    exact Or.inl ⟨rfl, rfl⟩
  · rw [hparse]
    exact Or.inr hraw

/-- A qualifier that is not empty ends in a segment that is not empty. -/
theorem splitQualifier_of_isQualifier {qualifier : String} (hqualifier : IsQualifier qualifier)
    (hne : qualifier ≠ "") :
    (splitQualifier qualifier).2 ≠ "" ∧ separator ∉ (splitQualifier qualifier).2.toList ∧
      ((qualifier = (splitQualifier qualifier).2 ∧ (splitQualifier qualifier).1 = "") ∨
        qualifier = (splitQualifier qualifier).1 ++ separator.toString ++
          (splitQualifier qualifier).2) := by
  cases hcut : Text.cutLast? separator qualifier.toList with
  | none =>
    have hfree := Text.cutLast?_eq_none_iff.mp hcut
    rw [splitQualifier_of_not_mem hfree]
    exact ⟨hne, hfree, Or.inl ⟨rfl, rfl⟩⟩
  | some parts =>
    obtain ⟨modifiers, group⟩ := parts
    obtain ⟨htext, hfree⟩ := Text.cutLast?_eq_some_iff.mp hcut
    rw [splitQualifier_eq_of_cut hcut]
    have hgroup : group ≠ [] := by
      rintro rfl
      apply (isQualifier_iff.mp hqualifier).2
      rw [htext, List.getLast?_concat]
    refine ⟨by simpa using hgroup, by simpa using hfree, Or.inr ?_⟩
    rw [← String.toList_inj, htext]
    simp

theorem group_parse {raw group : String} (hgroup : (parse raw).group? = some group) :
    group ≠ "" ∧ separator ∉ group.toList ∧
      (((parse raw).qualifier = group ∧ (parse raw).modifiers = "") ∨
        (parse raw).qualifier = (parse raw).modifiers ++ separator.toString ++ group) := by
  obtain ⟨hne, rfl⟩ := group?_eq_some_iff.mp hgroup
  exact splitQualifier_of_isQualifier (isQualifier_qualifier_parse raw) hne

/-- The reader accepts what is derived and gives back the only derivation: a name is more
than plain exactly if it is derived, and it is then read as the parts that it is derived
from.  The parts of any name, plain or not, make up the name, and a group is the last
segment of a qualifier and never empty. -/
theorem parse_recovers_derivation :
    Function.Injective Derivation.text ∧
      (∀ derivation : Derivation, parse derivation.text = derivation.token ∧
        (parse derivation.text).propertyKey? = derivation.value.key?) ∧
      ∀ raw,
        ((parse raw).kind ≠ .plain ↔ ∃ derivation : Derivation, derivation.text = raw) ∧
        ((parse raw).kind ≠ .property → (parse raw).propertyKey? = none) ∧
        (((parse raw).qualifier = "" ∧ (parse raw).value = raw) ∨
          raw = (parse raw).qualifier ++ divider ++ (parse raw).value) ∧
        ((parse raw).group? = none ↔ (parse raw).qualifier = "") ∧
        ∀ group ∈ (parse raw).group?, group ≠ "" ∧ separator ∉ group.toList ∧
          (((parse raw).qualifier = group ∧ (parse raw).modifiers = "") ∨
            (parse raw).qualifier = (parse raw).modifiers ++ separator.toString ++ group) := by
  refine ⟨Derivation.text_injective, ?_, ?_⟩
  · intro derivation
    rw [Derivation.parse_text]
    exact ⟨rfl, Value.propertyKey?_of_text derivation.parts_free rfl rfl⟩
  · intro raw
    exact ⟨Derivation.kind_parse_ne_plain_iff raw, propertyKey?_of_kind_ne,
      parse_reassembles raw, group?_eq_none_iff, fun group hgroup => group_parse hgroup⟩

/-- A third separator in a row goes to the value, which a dollar sign then does not start. -/
example : (parse "md:::$1").kind = .plain ∧ (parse "::$1").kind = .named ∧
    (parse "md:p::[color:red]").propertyKey? = some "color" := by
  decide +kernel

end ClassNames.Token
