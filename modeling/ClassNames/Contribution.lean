import ClassNames.Decimal.Positional
import ClassNames.Json.Node
import ClassNames.Resolve
import ClassNames.Text.Words

/-!
# Contributions

Class names are put together from values of several shapes: texts that may hold
several names, numbers, nested lists, and maps from names to conditions.  Each
contributes a list of words, and a list contributes the words of its items in order,
so how the values are grouped makes no difference.
-/

namespace ClassNames

/-- Something that contributes class names. -/
inductive Contribution where
  | nothing
  /-- Contributes nothing either. -/
  | flag (value : Bool)
  | number (value : Float)
  | text (names : String)
  | list (items : List Contribution)
  | map (entries : List (String × Bool))
deriving Inhabited

namespace Contribution

/-- One name with its condition. -/
def conditional (name : String) (holds : Bool) : Contribution :=
  .map [(name, holds)]

/-- An optional value, which contributes nothing if it is missing. -/
def ofOption : Option Contribution → Contribution
  | none => .nothing
  | some value => value

/-- The class names in a text, which ASCII blanks separate. -/
def namesOf (text : String) : List String :=
  Text.words Text.isAsciiBlank text

/-- A number is a name unless it is zero or no number. -/
def wordsOfNumber (value : Float) : List String :=
  if value == 0 || value.isNaN then [] else [Decimal.floatText value]

/-- The names whose condition holds. -/
def wordsOfEntries (entries : List (String × Bool)) : List String :=
  (entries.filter Prod.snd).flatMap fun (name, _) => namesOf name

mutual

/-- The class names that a value contributes, in order. -/
def words : Contribution → List String
  | .nothing | .flag _ => []
  | .number value => wordsOfNumber value
  | .text names => namesOf names
  | .list items => wordsOfAll items
  | .map entries => wordsOfEntries entries

/-- The class names that several values contribute, in order. -/
def wordsOfAll : List Contribution → List String
  | [] => []
  | value :: values => value.words ++ wordsOfAll values

end

@[simp]
theorem wordsOfAll_eq_flatMap (values : List Contribution) :
    wordsOfAll values = values.flatMap words := by
  induction values with
  | nil => rfl
  | cons value values ih => simp [wordsOfAll, ih]

/-- The members of an object in the order of their names.  Of several members with
one name the last one counts. -/
def sortMembers (members : List (String × Json.Value)) : List (String × Json.Value) :=
  (Std.ExtTreeMap.ofList members : Std.ExtTreeMap String Json.Value).toList

mutual

/-- The value that a JSON value describes.  An object is a map whose conditions are
the truth of its members. -/
def ofJson : Json.Value → Contribution
  | .null => .nothing
  | .bool value => .flag value
  | .number value => .number value
  | .string names => .text names
  | .array items => .list (ofJsonItems items)
  | .object members =>
    .map ((sortMembers members).map fun (name, value) => (name, value.isTruthy))

def ofJsonItems : List Json.Value → List Contribution
  | [] => []
  | item :: items => ofJson item :: ofJsonItems items

end

end Contribution

namespace Table

/-- The class names of all values, without the superseded ones, as one text. -/
def compose (table : Table) (values : List Contribution) : String :=
  table.resolveToText (Contribution.wordsOfAll values)

/-- The notices of `compose`. -/
def composeNotices (table : Table) (values : List Contribution) : List Notice :=
  table.resolveNotices (Contribution.wordsOfAll values)

end Table

end ClassNames
