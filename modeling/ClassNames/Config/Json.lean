import ClassNames.Config
import ClassNames.Json.Node
import ClassNames.Json.Writer

/-!
# Config documents in JSON

The document is an object in which `specificity` may stand once and other names are
ignored, or an array that is empty or holds the entries alone.  Names and children
have to be texts; what is ignored has to be JSON but no more.
-/

namespace ClassNames

namespace Config

open Json (Node)

/-- The text that a written string stands for. -/
def nameOfPieces? (pieces : List Json.Piece) : Option String :=
  (Json.textOfPieces? pieces).map String.ofList

def childOfNode? : Node → Option String
  | .string pieces => nameOfPieces? pieces
  | _ => none

def childrenOfNode? : Node → Option (List String)
  | .array items => items.mapM childOfNode?
  | _ => none

/-- The entries of the object under `specificity`. -/
def entriesOfNode? : Node → Option (List (String × List String))
  | .object members => members.mapM fun (name, children) => do
    return (← nameOfPieces? name, ← childrenOfNode? children)
  | _ => none

/-- The content that the members of a document describe. -/
def ofMembers? (members : List (List Json.Piece × Node)) : Option Config := do
  let named ← members.mapM fun (name, node) => do return (← nameOfPieces? name, node)
  match named.filter (·.1 = fieldName) with
  | [] => return empty
  | [(_, entries)] => return ofList (← entriesOfNode? entries)
  | _ => none

def ofNode? : Node → Option Config
  | .object members => ofMembers? members
  | .array [] => some empty
  | .array [entries] => (entriesOfNode? entries).map ofList
  | _ => none

/-- Reads a JSON document. -/
def ofJson? (source : String) : Option Config := do
  ofNode? (← Node.ofText? source)

/-- The entries as an object of arrays. -/
def writeEntries (entries : List (String × List String)) : List Char :=
  Json.writeObject <| entries.map fun (parent, children) =>
    (parent, Json.writeArray (children.map Json.writeString))

/-- The document as JSON. -/
def toJson (config : Config) : String :=
  String.ofList (Json.writeObject [(fieldName, writeEntries config.toList)])

end Config

/-- The entries of the table as JSON, without the name around them. -/
def Table.toJson (table : Table) : String :=
  String.ofList (Config.writeEntries table.toList)

end ClassNames
