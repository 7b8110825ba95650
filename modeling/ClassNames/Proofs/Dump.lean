import ClassNames.Config.Document
import ClassNames.Proofs.Listing
import ClassNames.Proofs.Written

/-!
# Dumped tables are loaded again

A table is dumped as a config document in JSON.  Whatever its names are made of, the
document says just what the table holds: it is read back as the same entries, and these
pass the check exactly if the table is valid.  So every table that a program can hold
comes back from its dump, and no two tables share one.
-/

namespace ClassNames

open Json (Node piecesOf)

/-- Undoing each item of a list undoes all of them. -/
theorem mapM_map_eq_some {Item Image : Type} {write : Item → Image}
    {read? : Image → Option Item} (hread : ∀ item, read? (write item) = some item)
    (items : List Item) : (items.map write).mapM read? = some items := by
  have hpure : read? ∘ write = fun item => pure item := by
    funext item
    exact hread item
  rw [List.mapM_map, hpure, List.mapM_pure, List.map_id']
  rfl

namespace Config

theorem nameOfPieces?_piecesOf (text : String) : nameOfPieces? (piecesOf text) = some text := by
  simp [nameOfPieces?, Json.textOfPieces?_piecesOf]

/-- The node of a row of children. -/
def childrenNode (children : List String) : Node :=
  .array (children.map fun child => .string (piecesOf child))

def entriesNode (entries : List (String × List String)) : Node :=
  .object (entries.map fun (parent, children) => (piecesOf parent, childrenNode children))

theorem childrenOfNode?_childrenNode (children : List String) :
    childrenOfNode? (childrenNode children) = some children := by
  refine mapM_map_eq_some ?_ children
  intro child
  exact nameOfPieces?_piecesOf child

theorem entriesOfNode?_entriesNode (entries : List (String × List String)) :
    entriesOfNode? (entriesNode entries) = some entries := by
  refine mapM_map_eq_some ?_ entries
  rintro ⟨parent, children⟩
  simp [nameOfPieces?_piecesOf, childrenOfNode?_childrenNode]

theorem writes_entries (entries : List (String × List String)) :
    Node.Writes (writeEntries entries) (entriesNode entries) :=
  Node.writes_object (Node.writes_array Node.writes_string) entries

/-- The content of a config document survives writing and reading. -/
theorem ofJson?_toJson (config : Config) : ofJson? config.toJson = some config := by
  have htext : Node.ofText? config.toJson =
      some (.object [(piecesOf fieldName, entriesNode config.toList)]) :=
    Node.ofText?_of_writes (Node.writes_object writes_entries [(fieldName, config.toList)])
  simp [ofJson?, htext, ofNode?, ofMembers?, nameOfPieces?_piecesOf,
    entriesOfNode?_entriesNode, ofList_toList]

theorem toJson_injective : Function.Injective toJson := by
  intro left right heq
  have hread := ofJson?_toJson left
  rw [heq, ofJson?_toJson] at hread
  exact (Option.some.inj hread).symm

end Config

/-- The document that a table is dumped as. -/
def Document.ofTable (table : Table) : Document :=
  ⟨.json, (Config.ofTable table).toJson⟩

namespace Table

/-- Loading the dump of a table checks the entries of the table again. -/
theorem load_document (table : Table) :
    (Document.ofTable table).table = ofList table.toList := by
  have hconfig : (Document.ofTable table).config = .ok (Config.ofTable table) := by
    simp [Document.config, Document.ofTable, Config.ofJson?_toJson]
  rw [Document.table, hconfig, ← Config.toList_ofTable]
  rfl

/-- A table comes back from its dump exactly if it is valid, and two tables have the same
dump exactly if they are equal. -/
theorem dump_faithful (table : Table) :
    ((Document.ofTable table).table = .ok table ↔ table.Valid) ∧
      ∀ other : Table,
        (Document.ofTable table).source = (Document.ofTable other).source ↔
          table = other := by
  refine ⟨⟨?_, ?_⟩, fun other => ⟨?_, ?_⟩⟩
  · intro hload
    rw [load_document] at hload
    exact valid_of_ofList_eq_ok hload
  · intro hvalid
    rw [load_document, ofList_toList hvalid]
  · intro hsource
    exact Config.ofTable_injective (Config.toJson_injective hsource)
  · rintro rfl
    rfl

/-- The parent holds a quote and a backslash, and the children are an empty name, a control
character and a line break. -/
example : (Document.ofTable (collect [("a\"\\", ["\n", "\x01", ""])])).source =
    "\x7b\"specificity\":\x7b\"a\\\"\\\\\":[\"\",\"\\u0001\",\"\\n\"]\x7d\x7d" := by
  decide +kernel

end Table

end ClassNames
