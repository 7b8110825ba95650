import ClassNames.Proofs.Pairwise
import ClassNames.Proofs.Qualifier

/-!
# Names under one more modifier

A modifier in front of a name moves the slots of the name and changes nothing else about
it.  Moved slots are equal only if they were equal before, so names override each other
under the modifier exactly as they do without it, and a list can be resolved before or
after the modifier is put in front.

A name that starts with a separator is left out.  Its first modifier is the empty segment,
which is not written in front of a child as long as it is the only one.
-/

namespace ClassNames

namespace Token

/-- The text with a modifier in front. -/
def under (modifier text : String) : String :=
  modifier ++ separator.toString ++ text

/-- The name has a divider, and a first segment that is not empty. -/
structure IsQualified (name : String) : Prop where
  divider : [separator, separator] <:+: name.toList
  head : name.toList.head? ≠ some separator

theorem isQualified_iff {name : String} :
    IsQualified name ↔ (Text.cutDouble? separator name.toList).isSome ∧
      name.toList.head? ≠ some separator := by
  rw [Option.isSome_iff_ne_none, ne_eq, Text.cutDouble?_eq_none_iff, Classical.not_not]
  exact ⟨fun hname => ⟨hname.divider, hname.head⟩, fun hboth => ⟨hboth.1, hboth.2⟩⟩

instance (name : String) : Decidable (IsQualified name) :=
  decidable_of_decidable_of_iff isQualified_iff.symm

@[simp]
theorem toList_under (modifier text : String) :
    (under modifier text).toList = modifier.toList ++ separator :: text.toList := by
  simp [under]

theorem under_injective (modifier : String) : Function.Injective (under modifier) := by
  intro left right heq
  have htext := congrArg String.toList heq
  rw [toList_under, toList_under] at htext
  exact String.toList_inj.mp (List.cons.inj (List.append_cancel_left htext)).2

theorem under_ne_empty (modifier text : String) : under modifier text ≠ "" := by
  intro hempty
  have htext := congrArg String.toList hempty
  rw [toList_under] at htext
  simp at htext

theorem qualify_of_ne_empty {modifiers : String} (hne : modifiers ≠ "") (group : String) :
    qualify modifiers group = under modifiers group := by
  rw [qualify, if_neg (by simpa [String.isEmpty_iff] using hne), under]

theorem under_under (modifier modifiers text : String) :
    under (under modifier modifiers) text = under modifier (under modifiers text) := by
  apply String.toList_inj.mp
  simp

/-- Without modifiers the new one is the only one, and with some it stands before them. -/
theorem splitQualifier_under (modifier qualifier : String) :
    splitQualifier (under modifier qualifier) =
      match Text.cutLast? separator qualifier.toList with
      | none => (modifier, qualifier)
      | some (before, after) =>
        (under modifier (String.ofList before), String.ofList after) := by
  cases hcut : Text.cutLast? separator qualifier.toList with
  | none =>
    have hfree := Text.cutLast?_eq_none_iff.mp hcut
    have hunder : Text.cutLast? separator (under modifier qualifier).toList =
        some (modifier.toList, qualifier.toList) :=
      Text.cutLast?_eq_some_iff.mpr ⟨toList_under modifier qualifier, hfree⟩
    rw [splitQualifier_eq_of_cut hunder, String.ofList_toList, String.ofList_toList]
  | some parts =>
    obtain ⟨before, after⟩ := parts
    obtain ⟨htext, hfree⟩ := Text.cutLast?_eq_some_iff.mp hcut
    have hunder : Text.cutLast? separator (under modifier qualifier).toList =
        some ((under modifier (String.ofList before)).toList, after) := by
      apply Text.cutLast?_eq_some_iff.mpr
      exact ⟨by simp [htext], hfree⟩
    rw [splitQualifier_eq_of_cut hunder, String.ofList_toList]

theorem splitQualifier_snd_under (modifier qualifier : String) :
    (splitQualifier (under modifier qualifier)).2 = (splitQualifier qualifier).2 := by
  rw [splitQualifier_under]
  cases hcut : Text.cutLast? separator qualifier.toList with
  | none => rw [splitQualifier_of_not_mem (Text.cutLast?_eq_none_iff.mp hcut)]
  | some parts => rw [splitQualifier_eq_of_cut hcut]

/-- A child under the modifiers moves with them.  An empty first segment would be lost. -/
theorem qualify_under {modifier qualifier : String} (hne : modifier ≠ "")
    (hhead : qualifier.toList.head? ≠ some separator) (child : String) :
    qualify (splitQualifier (under modifier qualifier)).1 child =
      under modifier (qualify (splitQualifier qualifier).1 child) := by
  rw [splitQualifier_under]
  cases hcut : Text.cutLast? separator qualifier.toList with
  | none =>
    have hfree := Text.cutLast?_eq_none_iff.mp hcut
    rw [splitQualifier_of_not_mem hfree, qualify_of_ne_empty hne]
    rfl
  | some parts =>
    obtain ⟨before, after⟩ := parts
    have hbefore : String.ofList before ≠ "" := by
      intro hempty
      apply hhead
      obtain rfl : before = [] := by simpa using congrArg String.toList hempty
      rw [(Text.cutLast?_eq_some_iff.mp hcut).1]
      rfl
    rw [splitQualifier_eq_of_cut hcut, qualify_of_ne_empty (under_ne_empty _ _),
      qualify_of_ne_empty hbefore, under_under]

/-- A name is kept as it is with the modifier if it is without, and else the modifier
becomes the first segment of its qualifier. -/
theorem parse_under {modifier name : String} (hfree : separator ∉ modifier.toList)
    (hname : IsQualified name) :
    (parse name = ofPlain name ∧
        parse (under modifier name) = ofPlain (under modifier name)) ∨
      ∃ qualifier value, qualifier ≠ "" ∧ qualifier.toList.head? ≠ some separator ∧
        parse name = ⟨name, qualifier, value, kindOf value.toList⟩ ∧
        parse (under modifier name) =
          ⟨under modifier name, under modifier qualifier, value, kindOf value.toList⟩ := by
  cases hcut : Text.cutDouble? separator name.toList with
  | none => exact absurd hname.divider (Text.cutDouble?_eq_none_iff.mp hcut)
  | some parts =>
    obtain ⟨before, after⟩ := parts
    have hunder : Text.cutDouble? separator (under modifier name).toList =
        some (modifier.toList ++ separator :: before, after) := by
      rw [toList_under, Text.cutDouble?_append_cons hfree hname.head, hcut]
      rfl
    have hhead := hname.head
    rw [(Text.cutDouble?_eq_some_iff.mp hcut).1] at hhead
    have hbefore : before ≠ [] := by
      rintro rfl
      exact hhead rfl
    cases hafter : Text.cutDouble? separator after with
    | some parts =>
      exact Or.inl ⟨parse_of_repeated hcut (by simp [hafter]),
        parse_of_repeated hunder (by simp [hafter])⟩
    | none =>
      refine Or.inr ⟨String.ofList before, String.ofList after, ?_, ?_, ?_, ?_⟩
      · simpa using hbefore
      · obtain ⟨c, rest, rfl⟩ := List.exists_cons_of_ne_nil hbefore
        simpa using hhead
      · rw [parse_of_cutDouble? hcut hafter (Or.inl hbefore), String.toList_ofList]
      · have hqualifier : under modifier (String.ofList before) =
            String.ofList (modifier.toList ++ separator :: before) := by
          rw [← String.toList_inj]
          simp
        rw [parse_of_cutDouble? hunder hafter (Or.inl (by simp)), String.toList_ofList,
          hqualifier]

end Token

/-- The slot of the same style or property under one more modifier. -/
def Slot.under (modifier : String) (slot : Slot) : Slot :=
  ⟨Token.under modifier slot.qualifier, slot.key?⟩

theorem Slot.under_injective (modifier : String) : Function.Injective (Slot.under modifier) := by
  intro left right heq
  cases left
  cases right
  obtain ⟨hqualifier, hkey⟩ := Slot.mk.inj heq
  exact congr (congrArg Slot.mk (Token.under_injective modifier hqualifier)) hkey

namespace Token

variable {table : Table} {modifier : String}

theorem propertyKey?_congr {left right : Token} (hkind : left.kind = right.kind)
    (hvalue : left.value = right.value) : left.propertyKey? = right.propertyKey? := by
  rw [propertyKey?, propertyKey?, hkind, hvalue]

theorem slot?_under {token moved : Token} (hkind : moved.kind = token.kind)
    (hvalue : moved.value = token.value)
    (hqualifier : moved.qualifier = under modifier token.qualifier) :
    moved.slot? = token.slot?.map (Slot.under modifier) := by
  rw [slot?, slot?, propertyKey?_congr hkind hvalue, hkind, hqualifier]
  split
  · rfl
  · rw [Option.map_map]
    rfl

theorem childQualifiers_under {token moved : Token} (hmodifier : modifier ≠ "")
    (hne : token.qualifier ≠ "") (hhead : token.qualifier.toList.head? ≠ some separator)
    (hqualifier : moved.qualifier = under modifier token.qualifier) :
    moved.childQualifiers table = (token.childQualifiers table).map (under modifier) := by
  have hgroup : token.group? = some (splitQualifier token.qualifier).2 :=
    group?_eq_some_iff.mpr ⟨hne, rfl⟩
  have hmoved : moved.group? = some (splitQualifier token.qualifier).2 := by
    apply group?_eq_some_iff.mpr
    rw [hqualifier]
    exact ⟨under_ne_empty _ _, splitQualifier_snd_under _ _⟩
  simp only [childQualifiers, hgroup, hmoved, List.map_map]
  apply List.map_congr_left
  intro child _
  rw [Function.comp_apply, modifiers, modifiers, hqualifier, qualify_under hmodifier hhead]

theorem claims_under {token moved : Token} (hmodifier : modifier ≠ "")
    (hne : token.qualifier ≠ "") (hhead : token.qualifier.toList.head? ≠ some separator)
    (hkind : moved.kind = token.kind) (hvalue : moved.value = token.value)
    (hqualifier : moved.qualifier = under modifier token.qualifier) :
    moved.claims table = (token.claims table).map (Slot.under modifier) := by
  rw [claims, claims, slot?_under hkind hvalue hqualifier,
    childQualifiers_under hmodifier hne hhead hqualifier, hkind, hqualifier]
  split
  · rw [List.map_cons, List.map_map, List.map_map]
    rfl
  · rw [Option.toList_map]

/-- A modifier in front of a name moves the slot that the name fills and those that it
claims. -/
theorem slots_parse_under (table : Table) (hmodifier : modifier ≠ "")
    (hfree : separator ∉ modifier.toList) {name : String} (hname : IsQualified name) :
    (parse (under modifier name)).slot? = (parse name).slot?.map (Slot.under modifier) ∧
      (parse (under modifier name)).claims table =
        ((parse name).claims table).map (Slot.under modifier) := by
  obtain ⟨hparse, hunder⟩ | ⟨qualifier, value, hne, hhead, hparse, hunder⟩ :=
    parse_under hfree hname
  · rw [hparse, hunder]
    exact ⟨rfl, rfl⟩
  · rw [hparse, hunder]
    exact ⟨slot?_under rfl rfl rfl, claims_under hmodifier hne hhead rfl rfl rfl⟩

theorem displaces_under_iff (hmodifier : modifier ≠ "")
    (hfree : separator ∉ modifier.toList) {later earlier : String}
    (hlater : IsQualified later) (hearlier : IsQualified earlier) :
    (parse (under modifier later)).Displaces table (parse (under modifier earlier)) ↔
      (parse later).Displaces table (parse earlier) := by
  obtain ⟨hslot, -⟩ := slots_parse_under table hmodifier hfree hearlier
  obtain ⟨-, hclaims⟩ := slots_parse_under table hmodifier hfree hlater
  rw [Displaces, Displaces, hslot, hclaims]
  constructor
  · rintro ⟨moved, hmoved, hclaim⟩
    obtain ⟨slot, hfills, rfl⟩ := Option.map_eq_some_iff.mp hmoved
    obtain ⟨other, hother, hsame⟩ := List.mem_map.mp hclaim
    exact ⟨slot, hfills, Slot.under_injective modifier hsame ▸ hother⟩
  · rintro ⟨slot, hfills, hclaim⟩
    exact ⟨slot.under modifier, by rw [hfills]; rfl, List.mem_map_of_mem hclaim⟩

end Token

open Token

namespace Table

/-- Resolving commutes with putting a modifier in front of every name. -/
theorem resolve_under (table : Table) {modifier : String} (hmodifier : modifier ≠ "")
    (hfree : separator ∉ modifier.toList) {names : List String}
    (hnames : ∀ name ∈ names, IsQualified name) :
    table.resolve (names.map (under modifier)) =
      (table.resolve names).map (under modifier) := by
  apply resolve_map
  intro later hlater earlier hearlier
  rw [← displaces_parse_iff, ← displaces_parse_iff]
  exact displaces_under_iff hmodifier hfree (hnames later hlater) (hnames earlier hearlier)

/-- Names with and without modifiers of their own, and one that is kept as it is. -/
theorem builtIn_resolve_under_dark :
    let names := ["md:px::$1", "pt::[2px]", "a::b::c", "md:p::$3", "py::$4"]
    "dark" ≠ "" ∧ separator ∉ "dark".toList ∧ (∀ name ∈ names, IsQualified name) ∧
      builtIn.resolve names = ["a::b::c", "md:p::$3", "py::$4"] ∧
      builtIn.resolve (names.map (under "dark")) =
        (builtIn.resolve names).map (under "dark") := by
  intro names
  have hnames : ∀ name ∈ names, IsQualified name := by decide +kernel
  have hfree : separator ∉ "dark".toList := by decide
  exact ⟨by decide, hfree, hnames, by decide +kernel,
    resolve_under builtIn (by decide) hfree hnames⟩

/-- An empty modifier is not looked for in front of a child. -/
example :
    builtIn.resolve ["px::$1", "p::$2"] = ["p::$2"] ∧
      builtIn.resolve (["px::$1", "p::$2"].map (under "")) = [":px::$1", ":p::$2"] := by
  decide +kernel

end Table

end ClassNames
