import ClassNames.Proofs.Qualifier
import ClassNames.Proofs.Survival
import Mathlib.Data.List.DropRight

/-!
# Propagation along the path

A style takes the place of styles whose group its own group subsumes.  Which
qualifiers those are can be said without modifiers: keep the qualifier up to and
including its last separator, and put a child in place of the group.

The two ways agree as long as there is a modifier or no separator at all.  They
differ for a qualifier such as `:p`, whose only modifier is the empty segment.  Then
the children are looked for without the separator in front of them, and the rule is
broken as soon as one of them can be found there.
-/

namespace ClassNames

namespace Token

/-- The qualifier up to and including its last separator, or nothing without one. -/
def path (qualifier : String) : List Char :=
  qualifier.toList.rdropWhile (· ≠ separator)

/-- The qualifier with another group in place of its last segment. -/
def replaceGroup (qualifier group : String) : String :=
  String.ofList (path qualifier) ++ group

/-- The later style has the qualifier of the earlier one, or reaches it by putting a
child in place of its own group. -/
def TakesOver (table : Table) (later earlier : Token) : Prop :=
  later.kind.isStyle ∧ earlier.kind.isStyle ∧
    (earlier.qualifier = later.qualifier ∨
      ∃ group, later.group? = some group ∧
        ∃ child, table.Subsumes group child ∧
          earlier.qualifier = replaceGroup later.qualifier child)

/-- The qualifier has one modifier, and that is empty, as in `:p`. -/
def HasEmptyModifier (qualifier : String) : Prop :=
  path qualifier = [separator]

theorem path_of_not_mem {qualifier : String} (hfree : separator ∉ qualifier.toList) :
    path qualifier = [] := by
  rw [path, List.rdropWhile_eq_nil_iff]
  intro c hc
  have hne : c ≠ separator := fun heq => hfree (heq ▸ hc)
  simpa using hne

theorem path_of_cutLast? {qualifier : String} {before after : List Char}
    (hcut : Text.cutLast? separator qualifier.toList = some (before, after)) :
    path qualifier = before ++ [separator] := by
  obtain ⟨htext, hfree⟩ := Text.cutLast?_eq_some_iff.mp hcut
  have hafter : ∀ c ∈ after.reverse, decide (c ≠ separator) = true := by
    intro c hc
    have hne : c ≠ separator := fun heq => hfree (heq ▸ List.mem_reverse.mp hc)
    simpa using hne
  calc
    path qualifier
        = ((after.reverse ++ separator :: before.reverse).dropWhile
            (· ≠ separator)).reverse := by
      rw [path, htext, List.rdropWhile, List.reverse_append, List.reverse_cons,
        List.append_assoc, List.singleton_append]
    _ = (separator :: before.reverse).reverse := by
      rw [List.dropWhile_append_of_pos hafter, List.dropWhile_cons_of_neg (by simp)]
    _ = before ++ [separator] := by
      rw [List.reverse_cons, List.reverse_reverse]

/-- A qualifier is a group alone, or it has modifiers, maybe empty ones, and a path. -/
theorem path_cases (qualifier : String) :
    (separator ∉ qualifier.toList ∧ path qualifier = []) ∨
      ∃ before after, Text.cutLast? separator qualifier.toList = some (before, after) ∧
        path qualifier = before ++ [separator] := by
  cases hcut : Text.cutLast? separator qualifier.toList with
  | none =>
    have hfree := Text.cutLast?_eq_none_iff.mp hcut
    exact Or.inl ⟨hfree, path_of_not_mem hfree⟩
  | some parts => exact Or.inr ⟨parts.1, parts.2, rfl, path_of_cutLast? hcut⟩

/-- Putting a child under the modifiers keeps the path, unless the modifiers are one
empty segment. -/
theorem qualify_modifiers (token : Token) (group : String)
    (hpath : ¬ HasEmptyModifier token.qualifier) :
    qualify token.modifiers group = replaceGroup token.qualifier group := by
  rw [modifiers, replaceGroup]
  obtain ⟨hfree, hnil⟩ | ⟨before, after, hcut, hbefore⟩ := path_cases token.qualifier
  · rw [hnil, splitQualifier_of_not_mem hfree]
    simp [qualify]
  · have hne : before ≠ [] := by
      intro hnil
      apply hpath
      rw [HasEmptyModifier, hbefore, hnil, List.nil_append]
    rw [hbefore, splitQualifier_eq_of_cut hcut, ← String.toList_inj]
    simp [qualify, hne]

theorem HasEmptyModifier.exists_cut {qualifier : String}
    (hpath : HasEmptyModifier qualifier) :
    ∃ after, Text.cutLast? separator qualifier.toList = some ([], after) := by
  obtain ⟨-, hnil⟩ | ⟨before, after, hcut, hbefore⟩ := path_cases qualifier
  · rw [HasEmptyModifier, hnil] at hpath
    cases hpath
  · rw [HasEmptyModifier, hbefore] at hpath
    obtain rfl : before = [] := by simpa using hpath
    exact ⟨after, hcut⟩

theorem HasEmptyModifier.qualify_modifiers {token : Token}
    (hpath : HasEmptyModifier token.qualifier) (group : String) :
    qualify token.modifiers group = group := by
  obtain ⟨after, hcut⟩ := hpath.exists_cut
  rw [modifiers, splitQualifier_eq_of_cut hcut]
  simp [qualify]

theorem HasEmptyModifier.toList_replaceGroup {qualifier : String}
    (hpath : HasEmptyModifier qualifier) (group : String) :
    (replaceGroup qualifier group).toList = separator :: group.toList := by
  rw [replaceGroup, hpath, String.toList_append, String.toList_ofList,
    List.singleton_append]

theorem HasEmptyModifier.head?_toList {qualifier : String}
    (hpath : HasEmptyModifier qualifier) : qualifier.toList.head? = some separator := by
  obtain ⟨after, hcut⟩ := hpath.exists_cut
  rw [(Text.cutLast?_eq_some_iff.mp hcut).1, List.nil_append, List.head?_cons]

/-- What follows the separator at the start of a qualifier does not start with
another one, and is a qualifier itself. -/
theorem IsQualifier.of_separator_cons {whole rest : String}
    (hwhole : IsQualifier whole) (htext : whole.toList = separator :: rest.toList) :
    IsQualifier rest ∧ rest.toList.head? ≠ some separator := by
  rw [IsQualifier, htext, List.cons_append, List.infix_cons_iff, not_or] at hwhole
  refine ⟨hwhole.2, ?_⟩
  intro hhead
  apply hwhole.1
  obtain ⟨tail, htail⟩ := List.head?_eq_some_iff.mp hhead
  rw [htail]
  exact ⟨tail ++ [separator], rfl⟩

end Token

open Token

namespace Table

/-- The style gives way exactly to the later ones that take over from it. -/
def PropagatesOnPath (table : Table) (names : List String) (place : Nat) : Prop :=
  ∀ earlier superseded, (table.mark names)[place]? = some (earlier, superseded) →
    earlier.kind.isStyle →
      (superseded = true ↔
        ∃ later ∈ names.drop (place + 1), (parse later).TakesOver table earlier)

/-- The name is a style whose only modifier is empty, and some child of its group,
other than all of its qualifier, can be a qualifier. -/
def Strays (table : Table) (name : String) : Prop :=
  (parse name).kind.isStyle ∧ HasEmptyModifier (parse name).qualifier ∧
    ∃ group, (parse name).group? = some group ∧
      ∃ child, table.Subsumes group child ∧ IsQualifier child ∧
        child ≠ (parse name).qualifier

variable {table : Table}

/-- Behind an empty modifier, a name that does not stray finds no child where it looks
for them, or only its whole qualifier. -/
theorem eq_qualifier_of_not_strays {name group child : String}
    (hstrays : ¬ table.Strays name) (hstyle : (parse name).kind.isStyle)
    (hpath : HasEmptyModifier (parse name).qualifier)
    (hgroup : (parse name).group? = some group) (hsub : table.Subsumes group child)
    (hqualifier : IsQualifier child) : child = (parse name).qualifier := by
  apply Classical.byContradiction
  intro hne
  exact hstrays ⟨hstyle, hpath, group, hgroup, child, hsub, hqualifier, hne⟩

/-- A name that does not stray overrides just what it takes over. -/
theorem overrides_iff_takesOver {later earlier : String}
    (hstyle : (parse earlier).kind.isStyle) (hstrays : ¬ table.Strays later) :
    table.Overrides later earlier ↔ (parse later).TakesOver table (parse earlier) := by
  rw [overrides_iff_of_isStyle hstyle, mem_childQualifiers_iff, TakesOver]
  by_cases hpath : HasEmptyModifier (parse later).qualifier
  · -- Both ways to look for a child find nothing beyond the qualifier itself.
    have hearlier := isQualifier_qualifier_parse earlier
    constructor
    · rintro ⟨hlater, hsame | ⟨group, hgroup, child, hsub, hreach⟩⟩
      · exact ⟨hlater, hstyle, Or.inl hsame⟩
      · rw [hpath.qualify_modifiers] at hreach
        rw [hreach] at hearlier ⊢
        have hself := eq_qualifier_of_not_strays hstrays hlater hpath hgroup hsub hearlier
        exact ⟨hlater, hstyle, Or.inl hself⟩
    · rintro ⟨hlater, -, hsame | ⟨group, hgroup, child, hsub, hreach⟩⟩
      · exact ⟨hlater, Or.inl hsame⟩
      · have htext := hpath.toList_replaceGroup child
        rw [← hreach] at htext
        obtain ⟨hqualifier, hhead⟩ := hearlier.of_separator_cons htext
        have hself := eq_qualifier_of_not_strays hstrays hlater hpath hgroup hsub hqualifier
        rw [hself] at hhead
        exact absurd hpath.head?_toList hhead
  · simp only [qualify_modifiers _ _ hpath, hstyle, true_and]

theorem propagatesOnPath_of_not_strays {names : List String} {place : Nat}
    (hstrays : ∀ later ∈ names.drop (place + 1), ¬ table.Strays later) :
    table.PropagatesOnPath names place := by
  intro earlier superseded hplace hstyle
  rw [getElem?_mark, Option.map_eq_some_iff] at hplace
  obtain ⟨name, -, hpair⟩ := hplace
  obtain ⟨rfl, rfl⟩ := Prod.mk.inj hpair
  rw [decide_eq_true_iff, not_survives_iff]
  constructor
  · rintro ⟨later, hmem, hover⟩
    exact ⟨later, hmem, (overrides_iff_takesOver hstyle (hstrays later hmem)).mp hover⟩
  · rintro ⟨later, hmem, htakes⟩
    exact ⟨later, hmem, (overrides_iff_takesOver hstyle (hstrays later hmem)).mpr htakes⟩

/-- Some child that is looked for in the wrong place is not looked for in any right
one. -/
theorem Strays.exists_child {name : String} (hstrays : table.Strays name) :
    ∃ group child, (parse name).group? = some group ∧ table.Subsumes group child ∧
      IsQualifier child ∧ child ≠ (parse name).qualifier ∧
      ∀ other, table.Subsumes group other → child.toList ≠ separator :: other.toList := by
  obtain ⟨-, hpath, group, hgroup, child, hsub, hqualifier, hne⟩ := hstrays
  by_cases hchild : ∃ other, table.Subsumes group other ∧
      child.toList = separator :: other.toList
  · obtain ⟨other, hother, htext⟩ := hchild
    obtain ⟨hqualifier', hhead⟩ := hqualifier.of_separator_cons htext
    refine ⟨group, other, hgroup, hother, hqualifier', ?_, ?_⟩
    · intro heq
      rw [heq] at hhead
      exact hhead hpath.head?_toList
    · intro third _ hthird
      rw [hthird] at hhead
      exact hhead rfl
  · refine ⟨group, child, hgroup, hsub, hqualifier, hne, ?_⟩
    intro other hother htext
    exact hchild ⟨other, hother, htext⟩

theorem Strays.exists_not_propagatesOnPath {name : String}
    (hstrays : table.Strays name) : ∃ earlier, ¬ table.PropagatesOnPath [earlier, name] 0 := by
  obtain ⟨group, child, hgroup, hsub, hqualifier, hne, hright⟩ := hstrays.exists_child
  obtain ⟨hlater, hpath, -⟩ := hstrays
  obtain ⟨earlier, hstyle, hearlier⟩ := exists_parse_of_isQualifier hqualifier
  refine ⟨earlier, ?_⟩
  intro hpropagates
  have hover : table.Overrides name earlier := by
    rw [overrides_iff_of_isStyle hstyle, mem_childQualifiers_iff]
    refine ⟨hlater, Or.inr ⟨group, hgroup, child, hsub, ?_⟩⟩
    rw [hpath.qualify_modifiers, hearlier]
  have hgone : ¬ table.Survives [name] earlier := by simp [hover]
  have hmark : (table.mark [earlier, name])[0]? = some (parse earlier, true) := by
    rw [mark_cons, List.getElem?_cons_zero, decide_eq_true hgone]
  obtain ⟨later, hmem, htakes⟩ := (hpropagates _ _ hmark hstyle).mp rfl
  obtain rfl : later = name := by simpa using hmem
  obtain ⟨-, -, hsame | ⟨own, hown, other, hother, hreach⟩⟩ := htakes
  · exact hne (hearlier.symm.trans hsame)
  · obtain rfl : group = own := Option.some.inj (hgroup.symm.trans hown)
    apply hright other hother
    rw [← hearlier, hreach, hpath.toList_replaceGroup]

/-- Propagation stays on the path exactly as far as no name strays.  A style gives way
to what takes over from it, and to nothing else, wherever none of the later names
strays; and every name that strays breaks the rule for some name before it. -/
theorem propagatesOnPath_iff_not_strays (table : Table) :
    (∀ (names : List String) (place : Nat),
      (∀ later ∈ names.drop (place + 1), ¬ table.Strays later) →
        table.PropagatesOnPath names place) ∧
      ∀ name, (∀ earlier, table.PropagatesOnPath [earlier, name] 0) ↔
        ¬ table.Strays name := by
  refine ⟨fun names place => propagatesOnPath_of_not_strays, fun name => ?_⟩
  constructor
  · intro hpropagates hstrays
    obtain ⟨earlier, hbroken⟩ := hstrays.exists_not_propagatesOnPath
    exact hbroken (hpropagates earlier)
  · intro hstrays earlier
    apply propagatesOnPath_of_not_strays
    intro later hmem
    obtain rfl : later = name := by simpa using hmem
    exact hstrays

theorem builtIn_propagatesOnPath_md :
    (∀ later ∈ ["md:px::$1", "md:p::$2"].drop (0 + 1), ¬ builtIn.Strays later) ∧
      builtIn.PropagatesOnPath ["md:px::$1", "md:p::$2"] 0 ∧
      ((∀ earlier, builtIn.PropagatesOnPath [earlier, "md:p::$2"] 0) ↔
        ¬ builtIn.Strays "md:p::$2") := by
  have hstrays : ¬ builtIn.Strays "md:p::$2" := by
    intro hstrays
    exact (by decide : path (parse "md:p::$2").qualifier ≠ [separator]) hstrays.2.1
  have hlater : ∀ later ∈ ["md:px::$1", "md:p::$2"].drop (0 + 1), ¬ builtIn.Strays later := by
    intro later hmem
    obtain rfl : later = "md:p::$2" := by simpa using hmem
    exact hstrays
  exact ⟨hlater, (propagatesOnPath_iff_not_strays builtIn).1 _ 0 hlater,
    (propagatesOnPath_iff_not_strays builtIn).2 _⟩

/-- Behind an empty modifier a group misses its child on the path, and takes the place
of one off the path. -/
theorem builtIn_not_propagatesOnPath_emptyModifier :
    ¬ builtIn.PropagatesOnPath [":px::$1", ":p::$2"] 0 ∧
      ¬ builtIn.PropagatesOnPath ["px::$1", ":p::$2"] 0 := by
  constructor
  · intro hpropagates
    have hmark : (builtIn.mark [":px::$1", ":p::$2"])[0]? =
        some (parse ":px::$1", false) := by
      decide +kernel
    have htakes : (parse ":p::$2").TakesOver builtIn (parse ":px::$1") :=
      ⟨by decide, by decide, Or.inr ⟨"p", by decide, "px", by decide +kernel, by decide⟩⟩
    have hgone := (hpropagates _ _ hmark (by decide)).mpr ⟨":p::$2", by simp, htakes⟩
    cases hgone
  · intro hpropagates
    have hmark : (builtIn.mark ["px::$1", ":p::$2"])[0]? = some (parse "px::$1", true) := by
      decide +kernel
    obtain ⟨later, hmem, -, -, htakes⟩ := (hpropagates _ _ hmark (by decide)).mp rfl
    obtain rfl : later = ":p::$2" := by simpa using hmem
    rcases htakes with hsame | ⟨group, -, child, -, hreach⟩
    · exact absurd hsame (by decide)
    · have hpath : HasEmptyModifier (parse ":p::$2").qualifier :=
        (by decide : path (parse ":p::$2").qualifier = [separator])
      have htext := hpath.toList_replaceGroup child
      rw [← hreach] at htext
      have hhead : (parse "px::$1").qualifier.toList.head? = some separator :=
        congrArg List.head? htext
      exact absurd hhead (by decide)

end Table

end ClassNames
