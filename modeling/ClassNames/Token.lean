import ClassNames.Text.Cut

/-!
# Class name tokens

A token is a class name split at its divider `::` into a qualifier and a value:

```text
token     := value | qualifier "::" value
qualifier := segment (":" segment)*
value     := "$" name | "[" argument "]" | "[" key ":" argument "]"
```

The last segment of the qualifier is the style group, the segments before it are
the modifiers.  Every text is a token: one that does not follow the grammar is of
kind `plain`, and is then left alone by everything that resolves conflicts.
-/

namespace ClassNames

/-- How the value of a token takes part in conflicts. -/
inductive Token.Kind where
  /-- A registered value, written `$lg`. -/
  | named
  /-- A raw argument for the style group, written `[100px]`. -/
  | argument
  /-- A raw property with its value, written `[padding:10px]`. -/
  | property
  /-- Anything else. -/
  | plain
deriving DecidableEq, Repr, Inhabited

/-- Named values and raw arguments compete for the same style. -/
def Token.Kind.isStyle : Token.Kind → Bool
  | .named | .argument => true
  | .property | .plain => false

/-- A class name and its parts.  Without a divider the qualifier is empty and the
value is the whole name. -/
structure Token where
  raw : String
  qualifier : String
  value : String
  kind : Token.Kind
deriving DecidableEq, Repr, Inhabited

namespace Token

/-- Joins the segments of a qualifier, and the parts of a bracketed value. -/
def separator : Char := ':'

/-- Stands between the qualifier and the value. -/
def divider : String := "::"

/-- Opens a named value. -/
def namedSign : Char := '$'

/-- The text between an opening bracket at the start and a closing one at the
end.  A single bracket is not both. -/
def bracketed? : List Char → Option (List Char)
  | '[' :: rest => if rest.getLast? = some ']' then some rest.dropLast else none
  | _ => none

/-- The kind of a value.  A dollar sign alone is a named value, and brackets hold
an argument or a property according to the number of separators in them. -/
def kindOf (value : List Char) : Kind :=
  if value.head? = some namedSign then .named
  else
    match (bracketed? value).map (·.count separator) with
    | some 0 => .argument
    | some 1 => .property
    | _ => .plain

/-- A token whose name is kept as it is. -/
def ofPlain (raw : String) : Token :=
  ⟨raw, "", raw, .plain⟩

/-- Reads a class name.  A second divider, or a divider with nothing around it,
makes it plain. -/
def parse (raw : String) : Token :=
  match Text.cutDouble? separator raw.toList with
  | none => ⟨raw, "", raw, kindOf raw.toList⟩
  | some (qualifier, value) =>
    if (Text.cutDouble? separator value).isSome then ofPlain raw
    else if qualifier.isEmpty && value.isEmpty then ofPlain raw
    else ⟨raw, String.ofList qualifier, String.ofList value, kindOf value⟩

/-- A divider stands also in the text after the first divider. -/
def hasRepeatedDivider (raw : String) : Bool :=
  match Text.cutDouble? separator raw.toList with
  | none => false
  | some (_, value) => (Text.cutDouble? separator value).isSome

/-- The modifiers and the style group of a qualifier. -/
def splitQualifier (qualifier : String) : String × String :=
  match Text.cutLast? separator qualifier.toList with
  | some (modifiers, group) => (String.ofList modifiers, String.ofList group)
  | none => ("", qualifier)

/-- The last segment of the qualifier, if there is a qualifier. -/
def group? (token : Token) : Option String :=
  if token.qualifier.isEmpty then none else some (splitQualifier token.qualifier).2

/-- The qualifier without its last segment. -/
def modifiers (token : Token) : String :=
  (splitQualifier token.qualifier).1

/-- The property that a `[key:argument]` value sets. -/
def propertyKey? (token : Token) : Option String :=
  match token.kind with
  | .property => do
    let inner ← bracketed? token.value.toList
    let (key, _) ← Text.cutFirst? separator inner
    return String.ofList key
  | _ => none

/-- The qualifier of `group` under `modifiers`: without modifiers it is the group
alone. -/
def qualify (modifiers group : String) : String :=
  if modifiers.isEmpty then group else modifiers ++ separator.toString ++ group

theorem eq_qualify_iff {qualifier modifiers group : String} :
    qualifier = qualify modifiers group ↔
      (modifiers = "" ∧ qualifier = group) ∨
        (modifiers ≠ "" ∧ qualifier = modifiers ++ separator.toString ++ group) := by
  rw [qualify]
  by_cases hempty : modifiers = ""
  · simp [hempty]
  · simp [hempty, String.isEmpty_iff]

@[simp]
theorem raw_parse (raw : String) : (parse raw).raw = raw := by
  unfold parse
  split
  · rfl
  · split
    · rfl
    · split <;> rfl

end Token

end ClassNames
