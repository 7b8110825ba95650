import ClassNames.Config
import ClassNames.Yaml.Node.Reader

/-!
# Config documents in YAML

The document is a mapping in which `specificity` may stand once and other names are
ignored.  The document, the mapping under `specificity` and each list of children may
also be left out, and every scalar is a name, whatever its tag and style.

An alias stands for the node of its anchor.  Aliases are followed as the document is
read, but not more often than a hundred times for every scalar, alias, start and end
of a collection in it.
-/

namespace ClassNames.Config

open Yaml (Node)

/-- The document around the nodes that are read. -/
structure Surrounding where
  /-- The anchored nodes.  Of several with one number the last one counts. -/
  anchored : Std.ExtTreeMap Nat Node
  /-- How many aliases may be followed. -/
  limit : Nat

/-- Reading a document, with the number of aliases followed so far. -/
abbrev Following := ReaderT Surrounding (StateT Nat Option)

/-- The node without its anchor, or the one that an alias stands for. -/
def follow : Node → Following Node
  | .alias number => do
    modify (· + 1)
    let around ← read
    guard ((← get) ≤ around.limit)
    around.anchored[number]?
  | .anchored _ content => return content
  | node => return node

/-- Nothing is written, or an empty plain scalar. -/
def isVoid : Node → Bool
  | .scalar text plain => plain && text.isEmpty
  | _ => false

def nameOf (node : Node) : Following String := do
  match ← follow node with
  | .scalar text _ => return text
  | _ => failure

def childrenOf (node : Node) : Following (List String) := do
  match ← follow node with
  | .sequence items => items.mapM nameOf
  | node => do
    guard (isVoid node)
    return []

/-- The members of a mapping that may be left out. -/
def membersOf (node : Node) : Following (List (Node × Node)) := do
  match ← follow node with
  | .mapping members => return members
  | node => do
    guard (isVoid node)
    return []

def entriesOf (node : Node) : Following (List (String × List String)) := do
  (← membersOf node).mapM fun (parent, children) => do
    return (← nameOf parent, ← childrenOf children)

/-- The content of a document. -/
def ofDocument (document : Node) : Following Config := do
  let named ← (← membersOf document).mapM fun (name, node) => do
    return (← nameOf name, node)
  match named.filter (·.1 = fieldName) with
  | [] => return empty
  | [(_, entries)] => return ofList (← entriesOf entries)
  | _ => failure

/-- Reads a YAML document. -/
def ofYaml? (source : String) : Option Config := do
  let document ← Node.ofText? source
  let around : Surrounding :=
    ⟨Std.ExtTreeMap.ofList document.anchors, 100 * document.eventCount⟩
  let (content, _) ← ((ofDocument document).run around).run 0
  return content

end ClassNames.Config
