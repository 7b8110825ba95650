import ClassNames.Proofs.Composition
import ClassNames.Proofs.Making
import Mathlib.Data.List.Forall2
import Mathlib.Logic.Relation

/-!
# Cleaned arguments

A path cleans its arguments of every blank of Unicode, while a text is cut into class names
at the ASCII blanks alone.  Those are blanks of Unicode as well, so what a path makes is one
class name, and it comes back from composing as it is.

Cleaning keeps the words of an argument and nothing of the blanks around them.  It does not
matter which blanks they are, or whether there are any at the ends, and an argument without
blanks is left alone, so cleaning it again changes nothing.
-/

namespace ClassNames

namespace Text

/-- The text holds no blank. -/
def BlankFree (text : String) : Prop :=
  ∀ c ∈ text.toList, isBlank c = false

instance (text : String) : Decidable (BlankFree text) :=
  List.decidableBAll (fun c => isBlank c = false) text.toList

/-- A run of blanks is exchanged for another, or one that stands at an end is left out. -/
inductive Respaces : String → String → Prop where
  | inner (before after : String) {left right : String} (hleft : IsGap isBlank left)
    (hright : IsGap isBlank right) :
    Respaces (before ++ left ++ after) (before ++ right ++ after)
  | leading (text : String) {gap : String} (hgap : IsGap isBlank gap) :
    Respaces (gap ++ text) text
  | trailing (text : String) {gap : String} (hgap : IsGap isBlank gap) :
    Respaces (text ++ gap) text

/-- The texts differ only in the blanks that their runs are made of, and in blanks at their
ends. -/
def SpacedAlike : String → String → Prop :=
  Relation.EqvGen Respaces

/-! ## Texts without blanks -/

theorem BlankFree.append {left right : String} (hleft : BlankFree left)
    (hright : BlankFree right) : BlankFree (left ++ right) := by
  rw [BlankFree, String.toList_append, List.forall_mem_append]
  exact ⟨hleft, hright⟩

theorem BlankFree.intercalate {gap : String} (hgap : BlankFree gap) {texts : List String}
    (htexts : ∀ text ∈ texts, BlankFree text) : BlankFree (gap.intercalate texts) := by
  induction texts with
  | nil => simp [BlankFree]
  | cons text texts ih =>
    obtain ⟨htext, hrest⟩ := List.forall_mem_cons.mp htexts
    cases texts with
    | nil => rwa [String.intercalate_singleton]
    | cons next texts =>
      rw [String.intercalate_cons_cons]
      exact (htext.append hgap).append (ih hrest)

theorem BlankFree.isWord {text : String} (hfree : BlankFree text) (hne : text ≠ "") :
    IsWord isBlank text.toList :=
  ⟨by simpa using hne, hfree⟩

/-- A word between blanks of Unicode is one between ASCII blanks. -/
theorem IsWord.ascii {text : List Char} (hword : IsWord isBlank text) :
    IsWord isAsciiBlank text where
  ne_nil := hword.ne_nil
  not_blank c hc := by
    have hblank := hword.not_blank c hc
    apply Bool.eq_false_iff.mpr
    intro hascii
    rw [isBlank_of_isAsciiBlank hascii] at hblank
    cases hblank

theorem blankFree_of_mem_words {text word : String} (hmem : word ∈ words isBlank text) :
    BlankFree word := by
  obtain ⟨piece, hpiece, rfl⟩ := List.mem_map.mp hmem
  rw [BlankFree, String.toList_ofList]
  exact (isWord_of_mem_wordsOfList hpiece).not_blank

/-! ## Other blanks -/

theorem Respaces.words_eq {left right : String} (hstep : Respaces left right) :
    words isBlank left = words isBlank right := by
  -- A run at an end is one between the text and nothing.
  cases hstep with
  | inner before after hleft hright =>
    rw [words_append_gap hleft, words_append_gap hright]
  | leading _ hgap =>
    have hcut := words_append_gap hgap "" right
    rwa [String.empty_append] at hcut
  | trailing _ hgap =>
    have hcut := words_append_gap hgap right ""
    have hnone : words isBlank "" = [] := rfl
    rwa [String.append_empty, hnone, List.append_nil] at hcut

theorem SpacedAlike.words_eq {left right : String} (halike : SpacedAlike left right) :
    words isBlank left = words isBlank right := by
  induction halike with
  | rel left right hstep => exact hstep.words_eq
  | refl text => rfl
  | symm left right _ ih => exact ih.symm
  | trans left middle right _ _ hleft hright => exact hleft.trans hright

end Text

open Text

namespace Path

variable {path : Path}

/-! ## Cleaning -/

theorem blankFree_sanitize (argument : String) : BlankFree (sanitize argument) :=
  BlankFree.intercalate (by decide) fun _ hmem => blankFree_of_mem_words hmem

/-- There is nothing to clean in a text without blanks. -/
theorem sanitize_of_blankFree {argument : String} (hfree : BlankFree argument) :
    sanitize argument = argument := by
  by_cases hempty : argument = ""
  · rw [hempty]
    rfl
  · rw [sanitize, words_eq_singleton (hfree.isWord hempty), String.intercalate_singleton]

theorem sanitize_sanitize (argument : String) : sanitize (sanitize argument) = sanitize argument :=
  sanitize_of_blankFree (blankFree_sanitize argument)

theorem sanitize_eq_of_spacedAlike {left right : String} (halike : SpacedAlike left right) :
    sanitize left = sanitize right := by
  rw [sanitize, sanitize, halike.words_eq]

theorem map_sanitize_eq {values others : List String}
    (halike : List.Forall₂ SpacedAlike values others) :
    values.map sanitize = others.map sanitize := by
  induction halike with
  | nil => rfl
  | cons hfirst _ ih => rw [List.map_cons, List.map_cons, sanitize_eq_of_spacedAlike hfirst, ih]

/-! ## One class name -/

theorem blankFree_bracketed (hpath : ∀ segment ∈ path.segments, BlankFree segment)
    (values : List String) : BlankFree (path.bracketed values) := by
  have hinner : BlankFree (inner values) := by
    apply BlankFree.intercalate (by decide)
    intro text hmem
    obtain ⟨value, -, rfl⟩ := List.mem_map.mp hmem
    exact blankFree_sanitize value
  have hvalue : BlankFree (Token.brackets (inner values)) :=
    (BlankFree.append (by decide) hinner).append (by decide)
  rw [bracketed_eq, attach]
  split
  · exact hvalue
  · have hqualifier : BlankFree path.qualifier := BlankFree.intercalate (by decide) hpath
    exact (hqualifier.append (by decide)).append hvalue

theorem bracketed_ne_empty (path : Path) (values : List String) : path.bracketed values ≠ "" := by
  rw [bracketed_eq, attach]
  split
  · simp [Token.brackets]
  · simp [Token.brackets]

end Path

namespace Table

/-- A word is composed to itself. -/
theorem compose_text_of_isWord (table : Table) {name : String}
    (hword : IsWord isAsciiBlank name.toList) : table.compose [.text name] = name := by
  have hnames : Contribution.wordsOfAll [.text name] = [name] := by
    simp [Contribution.words, Contribution.namesOf, words_eq_singleton hword]
  rw [compose, resolveToText, hnames, resolve_cons, resolve_nil,
    if_pos (table.survives_nil name), String.intercalate_singleton]

end Table

namespace Path

/-- The text is one class name by itself: it holds no blank of Unicode, and composing gives it
back. -/
structure IsSingle (name : String) : Prop where
  blankFree : BlankFree name
  compose : ∀ table : Table, table.compose [.text name] = name

variable {path : Path}

theorem isSingle_bracketed (hpath : ∀ segment ∈ path.segments, BlankFree segment)
    (values : List String) : IsSingle (path.bracketed values) where
  blankFree := blankFree_bracketed hpath values
  compose table := by
    have hword := (blankFree_bracketed hpath values).isWord (path.bracketed_ne_empty values)
    exact table.compose_text_of_isWord hword.ascii

/-- Only the cleaned arguments matter. -/
theorem bracketed_congr {values others : List String}
    (hsame : values.map sanitize = others.map sanitize) :
    path.bracketed values = path.bracketed others := by
  rw [bracketed, bracketed, hsame]

/-- Arguments make a single class name, as long as the segments hold no blanks.  Arguments
that are clean already make the same one, and so do others that differ in their blanks.
Making a name of one argument is no exception. -/
theorem arguments_make_single_name {path : Path}
    (hpath : ∀ segment ∈ path.segments, BlankFree segment) :
    (∀ values, values ≠ [] →
      ∃ made, path.arguments values = .ok made ∧ IsSingle made ∧
        path.arguments (values.map sanitize) = .ok made ∧
        ∀ others, List.Forall₂ SpacedAlike values others →
          path.arguments others = .ok made) ∧
      ∀ value,
        path.arguments [value] = .ok (path.argument value) ∧ IsSingle (path.argument value) ∧
          path.argument (sanitize value) = path.argument value ∧
          ∀ other, SpacedAlike value other → path.argument other = path.argument value := by
  have hclean (values : List String) :
      (values.map sanitize).map sanitize = values.map sanitize := by
    simp [sanitize_sanitize]
  constructor
  · intro values hne
    refine ⟨_, path.arguments_eq_ok hne, isSingle_bracketed hpath values, ?_, ?_⟩
    · rw [path.arguments_eq_ok (by simpa using hne), bracketed_congr (hclean values)]
    · intro others halike
      have hothers : others ≠ [] := by
        rintro rfl
        exact hne (List.forall₂_nil_right_iff.mp halike)
      rw [path.arguments_eq_ok hothers, bracketed_congr (map_sanitize_eq halike)]
  · intro value
    refine ⟨rfl, isSingle_bracketed hpath [value], bracketed_congr (hclean [value]), ?_⟩
    intro other halike
    exact bracketed_congr (by simp [sanitize_eq_of_spacedAlike halike])

/-- The second argument has a run of blanks in it and is written again with others, and the
first one has one in front of it. -/
theorem arguments_make_single_name_after :
    let path : Path := ⟨["after"]⟩
    let values := ["content", "\"a" ++ " \t" ++ "space__\""]
    let others := ["\u00a0\n" ++ "content", "\"a" ++ "\u2003" ++ "space__\""]
    (∀ segment ∈ path.segments, BlankFree segment) ∧ values ≠ [] ∧
      List.Forall₂ SpacedAlike values others ∧
      ∃ made, path.arguments values = .ok made ∧ made = "after::[content:\"a__space__\"]" ∧
        IsSingle made ∧ path.arguments others = .ok made := by
  intro path values others
  have hpath : ∀ segment ∈ path.segments, BlankFree segment := by decide +kernel
  have hne : values ≠ [] := List.cons_ne_nil _ _
  have halike : List.Forall₂ SpacedAlike values others := by
    refine .cons (.symm _ _ (.rel _ _ ?_)) (.cons (.rel _ _ ?_) .nil)
    · exact Respaces.leading "content" (by decide +kernel)
    · exact Respaces.inner "\"a" "space__\"" (by decide +kernel) (by decide +kernel)
  have hmade : path.arguments values = .ok "after::[content:\"a__space__\"]" :=
    congrArg Except.ok (by decide +kernel)
  obtain ⟨made, harguments, hsingle, -, hothers⟩ := (arguments_make_single_name hpath).1 values hne
  exact ⟨hpath, hne, halike, made, harguments, Except.ok.inj (harguments.symm.trans hmade),
    hsingle, hothers others halike⟩

end Path

end ClassNames
