import ClassNames.Proofs.Making
import ClassNames.Proofs.Pairwise

/-!
# Names made for the same property

A path makes the name and the reader takes it apart again, and the two go by different
rules.  Making a name cleans the arguments of blanks alone.  Reading it counts the
separators between the brackets: none is an argument for the group, one stands behind a
property, and with more of them the name is plain.  So two names that are made for the
same property replace each other as long as their values hold no separator, and with a
separator in a value, such as an address or a time of day has one, both are kept.
-/

namespace ClassNames

open Token

/-- Each text between brackets is an argument, or each sets the same property. -/
def Token.SameSubject (left right : String) : Prop :=
  (left.toList.count separator = 0 ∧ right.toList.count separator = 0) ∨
    (left.toList.count separator = 1 ∧ right.toList.count separator = 1 ∧
      keyText? left = keyText? right)

namespace Table

variable {table : Table} {path : Path}

/-- Two names on a path replace each other if their brackets have the same subject. -/
theorem overrides_of_sameSubject (hpath : path.WellFormed) {earlier later : String}
    (hsame : SameSubject earlier later) :
    table.Overrides (path.attach (brackets later)) (path.attach (brackets earlier)) := by
  rw [Overrides, Supersedes]
  obtain ⟨hearlier, hlater⟩ | ⟨hearlier, hlater, hkey⟩ := hsame
  · rw [Path.parse_attach_brackets hpath (by omega), Path.parse_attach_brackets hpath (by omega)]
    exact Or.inl
      ⟨isStyle_brackets_iff.mpr hlater, isStyle_brackets_iff.mpr hearlier, Or.inl rfl⟩
  · rw [Path.parse_attach_brackets hpath (by omega), Path.parse_attach_brackets hpath (by omega)]
    have hlaterKind := property_brackets_iff.mpr hlater
    have hearlierKind := property_brackets_iff.mpr hearlier
    refine Or.inr ⟨hlaterKind, hearlierKind, rfl, ?_⟩
    rw [propertyKey?_brackets hearlierKind rfl, propertyKey?_brackets hlaterKind rfl,
      hkey]

/-- Behind a path they do so only then. -/
theorem sameSubject_of_overrides (hpath : path.WellFormed) (hne : path.segments ≠ [])
    {earlier later : String}
    (hover : table.Overrides (path.attach (brackets later)) (path.attach (brackets earlier))) :
    SameSubject earlier later := by
  rw [Overrides, Supersedes, Path.kind_parse_attach_brackets hpath hne,
    Path.kind_parse_attach_brackets hpath hne] at hover
  obtain ⟨hlater, hearlier, -⟩ | ⟨hlater, hearlier, -, hkeys⟩ := hover
  · exact Or.inl ⟨isStyle_brackets_iff.mp hearlier, isStyle_brackets_iff.mp hlater⟩
  · have hearlierCount := property_brackets_iff.mp hearlier
    have hlaterCount := property_brackets_iff.mp hlater
    rw [Path.parse_attach_brackets hpath (by omega), Path.parse_attach_brackets hpath (by omega),
      propertyKey?_brackets hearlier rfl, propertyKey?_brackets hlater rfl] at hkeys
    exact Or.inr ⟨hearlierCount, hlaterCount,
      Option.map_injective (fun _ _ => String.ofList_injective) hkeys⟩

/-! ## Two values for one property -/

theorem inner_pair (key value : String) :
    Path.inner [key, value] = Path.sanitize key ++ separator.toString ++ Path.sanitize value := by
  rw [Path.inner, List.map_cons, List.map_cons, List.map_nil, String.intercalate_cons_cons,
    String.intercalate_singleton]

theorem count_inner_pair {key : String} (hkey : separator ∉ key.toList) (value : String) :
    (Path.inner [key, value]).toList.count separator = value.toList.count separator + 1 := by
  have hkeyCount : (Path.sanitize key).toList.count separator = 0 := by
    rw [Path.count_sanitize, List.count_eq_zero.mpr hkey]
  have hone : separator.toString.toList.count separator = 1 := by decide
  rw [inner_pair, String.toList_append, String.toList_append, List.count_append,
    List.count_append, hkeyCount, hone, Path.count_sanitize]
  omega

theorem keyText?_inner_pair {key : String} (hkey : separator ∉ key.toList) (value : String) :
    keyText? (Path.inner [key, value]) = some (Path.sanitize key).toList := by
  have hfree : separator ∉ (Path.sanitize key).toList := by
    rw [← List.count_eq_zero, Path.count_sanitize]
    exact List.count_eq_zero.mpr hkey
  rw [inner_pair, keyText?_join hfree]

theorem sameSubject_pair_iff {key first second : String} (hkey : separator ∉ key.toList) :
    SameSubject (Path.inner [key, first]) (Path.inner [key, second]) ↔
      separator ∉ first.toList ∧ separator ∉ second.toList := by
  rw [SameSubject, count_inner_pair hkey, count_inner_pair hkey, keyText?_inner_pair hkey,
    keyText?_inner_pair hkey, ← List.count_eq_zero, ← List.count_eq_zero]
  simp

theorem sameSubject_of_not_mem {first second : String} (hfirst : separator ∉ first.toList)
    (hsecond : separator ∉ second.toList) :
    SameSubject (Path.sanitize first) (Path.sanitize second) := by
  rw [SameSubject, Path.count_sanitize, Path.count_sanitize]
  exact Or.inl ⟨List.count_eq_zero.mpr hfirst, List.count_eq_zero.mpr hsecond⟩

/-- The two names can be made on the path, and of the two the later one alone is kept. -/
def Replaces (table : Table) (path : Path) (earlier later : List String) : Prop :=
  ∃ first second, path.arguments earlier = .ok first ∧ path.arguments later = .ok second ∧
    table.resolve [first, second] = [second]

theorem replaces_iff_overrides {earlier later : List String} (hearlier : earlier ≠ [])
    (hlater : later ≠ []) :
    table.Replaces path earlier later ↔
      table.Overrides (path.attach (brackets (Path.inner later)))
        (path.attach (brackets (Path.inner earlier))) := by
  have hfirst := path.arguments_eq_ok hearlier
  have hsecond := path.arguments_eq_ok hlater
  rw [← Path.bracketed_eq, ← Path.bracketed_eq, ← resolve_pair_eq_later_iff]
  constructor
  · rintro ⟨first, second, hfirst', hsecond', hkept⟩
    obtain rfl := Except.ok.inj (hfirst.symm.trans hfirst')
    obtain rfl := Except.ok.inj (hsecond.symm.trans hsecond')
    exact hkept
  · intro hkept
    exact ⟨_, _, hfirst, hsecond, hkept⟩

/-- Two names made for one property, or for one style, replace each other as long as no
value holds a separator.  Behind a path that is exact: for a property any separator in a
value keeps both names, and two single arguments with separators replace each other only
as the properties that they are read as. -/
theorem replaces_of_no_separator (table : Table) {path : Path} (hpath : path.WellFormed)
    {key : String} (hkey : separator ∉ key.toList) (first second : String) :
    (separator ∉ first.toList → separator ∉ second.toList →
        table.Replaces path [key, first] [key, second] ∧
          table.resolve [path.argument first, path.argument second] =
            [path.argument second]) ∧
      (path.segments ≠ [] →
        (table.Replaces path [key, first] [key, second] ↔
            separator ∉ first.toList ∧ separator ∉ second.toList) ∧
          (table.resolve [path.argument first, path.argument second] =
              [path.argument second] ↔
            SameSubject (Path.sanitize first) (Path.sanitize second))) := by
  have hpair : table.Replaces path [key, first] [key, second] ↔
      table.Overrides (path.attach (brackets (Path.inner [key, second])))
        (path.attach (brackets (Path.inner [key, first]))) :=
    replaces_iff_overrides (List.cons_ne_nil key [first]) (List.cons_ne_nil key [second])
  rw [hpair, resolve_pair_eq_later_iff, Path.argument_eq, Path.argument_eq]
  constructor
  · intro hfirst hsecond
    constructor
    · exact overrides_of_sameSubject hpath ((sameSubject_pair_iff hkey).mpr ⟨hfirst, hsecond⟩)
    · exact overrides_of_sameSubject hpath (sameSubject_of_not_mem hfirst hsecond)
  · intro hne
    rw [← sameSubject_pair_iff hkey]
    exact ⟨⟨sameSubject_of_overrides hpath hne, overrides_of_sameSubject hpath⟩,
      ⟨sameSubject_of_overrides hpath hne, overrides_of_sameSubject hpath⟩⟩

/-- Values with blanks and with characters of their own, behind two segments. -/
theorem builtIn_replaces_md_paddingLeft :
    let path : Path := ⟨["md", "hover"]⟩
    path.WellFormed ∧ separator ∉ "padding-left".toList ∧
      separator ∉ "10px 2em".toList ∧ separator ∉ "calc(1px + 2px)".toList ∧
      path.segments ≠ [] ∧
      builtIn.Replaces path ["padding-left", "10px 2em"] ["padding-left", "calc(1px + 2px)"] ∧
      builtIn.resolve [path.argument "10px 2em", path.argument "calc(1px + 2px)"] =
        [path.argument "calc(1px + 2px)"] ∧
      SameSubject (Path.sanitize "10px 2em") (Path.sanitize "calc(1px + 2px)") := by
  intro path
  have hpath : path.WellFormed := by decide +kernel
  have hkey : separator ∉ "padding-left".toList := by decide +kernel
  have hfirst : separator ∉ "10px 2em".toList := by decide +kernel
  have hsecond : separator ∉ "calc(1px + 2px)".toList := by decide +kernel
  have hne : path.segments ≠ [] := by decide
  obtain ⟨hkept, hexact⟩ :=
    replaces_of_no_separator builtIn hpath hkey "10px 2em" "calc(1px + 2px)"
  obtain ⟨hproperty, hstyle⟩ := hkept hfirst hsecond
  exact ⟨hpath, hkey, hfirst, hsecond, hne, hproperty, hstyle, (hexact hne).2.mp hstyle⟩

/-- A time of day holds a separator, so the name made with it is not replaced. -/
theorem builtIn_not_replaces_time :
    let path : Path := ⟨["md"]⟩
    path.WellFormed ∧ separator ∉ "content".toList ∧
      (∃ c ∈ "content".toList, Text.isBlank c = false) ∧
      path.arguments ["content", "12:30"] = .ok "md::[content:12:30]" ∧
      path.arguments ["content", "none"] = .ok "md::[content:none]" ∧
      ¬ builtIn.Replaces path ["content", "12:30"] ["content", "none"] := by
  intro path
  have hfirst : path.arguments ["content", "12:30"] = .ok "md::[content:12:30]" :=
    congrArg Except.ok (by decide +kernel)
  have hsecond : path.arguments ["content", "none"] = .ok "md::[content:none]" :=
    congrArg Except.ok (by decide +kernel)
  refine ⟨by decide +kernel, by decide +kernel, ⟨'c', by decide +kernel, by decide⟩, hfirst,
    hsecond, ?_⟩
  rintro ⟨first, second, hmade, hmade', hkept⟩
  obtain rfl := Except.ok.inj (hfirst.symm.trans hmade)
  obtain rfl := Except.ok.inj (hsecond.symm.trans hmade')
  have hboth : builtIn.resolve ["md::[content:12:30]", "md::[content:none]"] =
      ["md::[content:12:30]", "md::[content:none]"] := by
    decide +kernel
  rw [hboth] at hkept
  simp at hkept

end Table

end ClassNames
