import ClassNames.Text.Words
import ClassNames.Token

/-!
# Paths

A path collects the segments of a qualifier and then makes a class name of them
and a value.  Without segments the class name is the value alone.
-/

namespace ClassNames

/-- The modifiers and the group of a class name to be made. -/
structure Path where
  segments : List String
deriving DecidableEq, Repr, Inhabited

/-- Why a path makes no class name.  Both name the path with its segments joined
by points. -/
inductive Path.Error where
  /-- A bracketed value without arguments. -/
  | missingArguments (path : String)
  /-- A named value without a name. -/
  | emptyNamedValue (path : String)
deriving DecidableEq, Repr

namespace Path

/-- The wording of an error. -/
def Error.message : Error → String
  | .missingArguments path => "'" ++ path ++ "' must have at least one argument"
  | .emptyNamedValue path => "'" ++ path ++ "' requires a non-empty named value"

def empty : Path := ⟨[]⟩

/-- The path with one more segment. -/
def push (path : Path) (segment : String) : Path :=
  ⟨path.segments ++ [segment]⟩

/-- The segments joined as in a class name. -/
def qualifier (path : Path) : String :=
  Token.separator.toString.intercalate path.segments

/-- The segments joined by points, as errors name the path. -/
def dotted (path : Path) : String :=
  ".".intercalate path.segments

/-- The class name with the given value. -/
def attach (path : Path) (value : String) : String :=
  if path.segments.isEmpty then value else path.qualifier ++ Token.divider ++ value

/-- A text without the dollar sign at its start, if it has one. -/
def dropNamedSign (value : String) : String :=
  match value.toList with
  | c :: rest => if c = Token.namedSign then String.ofList rest else value
  | [] => value

/-- The class name with a named value.  The dollar sign may be left out. -/
def named (path : Path) (value : String) : Except Error String :=
  let name := dropNamedSign value
  if name.isEmpty then .error (.emptyNamedValue path.dotted)
  else .ok (path.attach (Token.namedSign.toString ++ name))

/-- An argument without blanks: its words joined by two underscores. -/
def sanitize (argument : String) : String :=
  "__".intercalate (Text.words Text.isBlank argument)

/-- The class name with the given arguments between brackets. -/
def bracketed (path : Path) (arguments : List String) : String :=
  path.attach ("[" ++ Token.separator.toString.intercalate (arguments.map sanitize) ++ "]")

/-- The class name with one argument. -/
def argument (path : Path) (value : String) : String :=
  path.bracketed [value]

/-- The class name with at least one argument. -/
def arguments (path : Path) (values : List String) : Except Error String :=
  if values.isEmpty then .error (.missingArguments path.dotted)
  else .ok (path.bracketed values)

end Path

end ClassNames
