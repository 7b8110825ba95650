/-!
# YAML nodes

The tree of a document.  Anchors are numbered in the order of the text, and an alias
has the number of its anchor.
-/

namespace ClassNames.Yaml

inductive Node where
  | scalar (text : String) (plain : Bool)
  | sequence (items : List Node)
  | mapping (members : List (Node × Node))
  | anchored (number : Nat) (content : Node)
  | alias (number : Nat)
deriving Inhabited

namespace Node

/-- What stands where nothing is written. -/
def void : Node := .scalar "" true

mutual

/-- The anchored nodes with their numbers, in the order of the text. -/
def anchors : Node → List (Nat × Node)
  | .scalar _ _ | .alias _ => []
  | .sequence items => anchorsOfItems items
  | .mapping members => anchorsOfMembers members
  | .anchored number content => (number, content) :: content.anchors

def anchorsOfItems : List Node → List (Nat × Node)
  | [] => []
  | item :: items => item.anchors ++ anchorsOfItems items

def anchorsOfMembers : List (Node × Node) → List (Nat × Node)
  | [] => []
  | (key, value) :: members => key.anchors ++ value.anchors ++ anchorsOfMembers members

end

mutual

/-- The number of scalars and aliases and of starts and ends of collections. -/
def eventCount : Node → Nat
  | .scalar _ _ | .alias _ => 1
  | .sequence items => 2 + eventCountOfItems items
  | .mapping members => 2 + eventCountOfMembers members
  | .anchored _ content => content.eventCount

def eventCountOfItems : List Node → Nat
  | [] => 0
  | item :: items => item.eventCount + eventCountOfItems items

def eventCountOfMembers : List (Node × Node) → Nat
  | [] => 0
  | (key, value) :: members =>
    key.eventCount + value.eventCount + eventCountOfMembers members

end

end Node

end ClassNames.Yaml
