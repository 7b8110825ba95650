import ClassNames.Config.Json
import ClassNames.Config.Yaml

/-!
# Documents

A config document together with the format that it is written in.
-/

namespace ClassNames

/-- How a document is written. -/
inductive Document.Format where
  | json
  | yaml
deriving DecidableEq, Repr, Inhabited

/-- The text of a config document and its format. -/
structure Document where
  format : Document.Format
  source : String
deriving DecidableEq, Repr, Inhabited

namespace Document

def Format.name : Format → String
  | .json => "JSON"
  | .yaml => "YAML"

/-- What the document says. -/
def config (document : Document) : Except Table.Error Config :=
  let content? := match document.format with
    | .json => Config.ofJson? document.source
    | .yaml => Config.ofYaml? document.source
  match content? with
  | some content => .ok content
  | none => .error (.unreadable ("not a config document in " ++ document.format.name))

/-- The table that the document describes. -/
def table (document : Document) : Except Table.Error Table := do
  (← document.config).toTable

end Document

end ClassNames
