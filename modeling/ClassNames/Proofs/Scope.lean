import ClassNames.Proofs.Closure
import ClassNames.Proofs.Pairwise

/-!
# Scopes

Styles, properties and plain names are three spaces of their own, and in each of them
every path of modifiers is a scope of its own.  A name is overridden only from within its
scope.  For a child this is the point of groups that are single segments: put under the
modifiers it gives a qualifier with the same modifiers, whatever text they are.
-/

namespace ClassNames

/-- What a value is about.  Named values and raw arguments share a space. -/
inductive Token.Space where
  | style
  | property
  | plain
deriving DecidableEq, Repr

def Token.Kind.space : Token.Kind → Token.Space
  | .named | .argument => .style
  | .property => .property
  | .plain => .plain

/-- A space under one path of modifiers. -/
structure Token.Scope where
  space : Token.Space
  modifiers : String
deriving DecidableEq, Repr

namespace Token

/-- The scope that a token belongs to. -/
def scope (token : Token) : Scope := ⟨token.kind.space, token.modifiers⟩

theorem Kind.space_eq_style {kind : Kind} (hstyle : kind.isStyle) : kind.space = .style := by
  cases kind with
  | named | argument => rfl
  | property | plain => cases hstyle

/-- A token takes the place of tokens of its own scope alone. -/
theorem Supersedes.scope_eq {table : Table} (hfree : table.SeparatorFree)
    {later earlier : Token} (hover : later.Supersedes table earlier) :
    earlier.scope = later.scope := by
  rw [scope, scope, Scope.mk.injEq]
  obtain ⟨hlater, hearlier, hreach⟩ | ⟨hlater, hearlier, hqualifier, -⟩ := hover
  · refine ⟨(Kind.space_eq_style hearlier).trans (Kind.space_eq_style hlater).symm, ?_⟩
    obtain hsame | hchild := hreach
    · exact modifiers_congr hsame
    · obtain ⟨group, child, -, -, -, hsplit⟩ :=
        exists_child_of_mem_childQualifiers hfree (mem_childQualifiers_iff_reaches.mpr hchild)
      rw [modifiers, hsplit]
  · exact ⟨by rw [hlater, hearlier], modifiers_congr hqualifier⟩

end Token

open Token

namespace Table

variable {table : Table}

theorem inScope_of_overrides (hfree : table.SeparatorFree) (scope : Scope)
    (later earlier : String) (hover : table.Overrides later earlier)
    (hearlier : decide ((parse earlier).scope = scope) = true) :
    decide ((parse later).scope = scope) = true := by
  rw [← Supersedes.scope_eq hfree hover]
  exact hearlier

/-- Nothing outside a scope causes or prevents the removal of a name inside it.  The names
of the scope get the same answers with the other names as without them and are resolved by
themselves, so two lists with the same names in the scope agree on it. -/
theorem scopes_do_not_interfere (hfree : table.SeparatorFree) (scope : Scope) :
    (∀ names : List String,
      table.resolve (names.filter fun name => (parse name).scope = scope) =
          (table.resolve names).filter (fun name => (parse name).scope = scope) ∧
        table.mark (names.filter fun name => (parse name).scope = scope) =
          (table.mark names).filter fun entry => entry.1.scope = scope) ∧
      ∀ left right : List String,
        (left.filter fun name => (parse name).scope = scope) =
            (right.filter fun name => (parse name).scope = scope) →
          ((table.mark left).filter fun entry => entry.1.scope = scope) =
            (table.mark right).filter fun entry => entry.1.scope = scope := by
  have hpart := inScope_of_overrides hfree scope
  have hmark := mark_filter (fun token => token.scope = scope) hpart
  refine ⟨fun names => ⟨?_, hmark names⟩, ?_⟩
  · exact resolve_filter (fun token => token.scope = scope) hpart names
  · intro left right hsame
    rw [← hmark, ← hmark, hsame]

/-- The padding under `md` is resolved alike next to names of every other scope. -/
theorem builtIn_scopes_do_not_interfere_md :
    let scope : Scope := ⟨.style, "md"⟩
    let names := ["md:px::$1", "px::$2", "md:px::[p:3px]", "md:p::$4", "block", "md:pt::$5"]
    let others := ["md:px::$1", "md:p::$4", "p::[6px]", "md:pt::$5", "md:pt::[pt:7px]"]
    builtIn.SeparatorFree ∧
      (names.filter fun name => (parse name).scope = scope) =
        (others.filter fun name => (parse name).scope = scope) ∧
      builtIn.resolve (names.filter fun name => (parse name).scope = scope) =
        (builtIn.resolve names).filter (fun name => (parse name).scope = scope) ∧
      ((builtIn.mark names).filter fun entry => entry.1.scope = scope) =
        (builtIn.mark others).filter fun entry => entry.1.scope = scope := by
  intro scope names others
  have hfree := closed_builtIn.separatorFree
  obtain ⟨hparts, hruns⟩ := scopes_do_not_interfere hfree scope
  have hsame : (names.filter fun name => (parse name).scope = scope) =
      others.filter fun name => (parse name).scope = scope := by
    decide +kernel
  exact ⟨hfree, hsame, (hparts names).1, hruns names others hsame⟩

/-- A child of two segments would reach into another scope. -/
example :
    let table := collect [("p", ["md:p"])]
    table.resolve ["md:p::$1", "p::$2"] = ["p::$2"] ∧
      (parse "md:p::$1").scope = ⟨.style, "md"⟩ ∧ (parse "p::$2").scope = ⟨.style, ""⟩ := by
  decide +kernel

end Table

end ClassNames
