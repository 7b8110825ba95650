import ClassNames.Table

/-!
# Config documents

A config document holds the entries of a table under the one name `specificity`.
What is read from it keeps the children in the order of the document; turning it
into a table sorts and checks them.
-/

namespace ClassNames

/-- The content of a config document: from each parent its children as listed. -/
structure Config where
  specificity : Std.ExtTreeMap String (List String)
deriving DecidableEq

namespace Config

/-- The content of a document that says nothing. -/
def empty : Config := ⟨∅⟩

/-- The name that holds the entries. -/
def fieldName : String := "specificity"

/-- Of several entries for one parent the last one counts. -/
def ofList (entries : List (String × List String)) : Config :=
  ⟨Std.ExtTreeMap.ofList entries⟩

/-- The entries in the order of the parents. -/
def toList (config : Config) : List (String × List String) :=
  config.specificity.toList

def toTable (config : Config) : Except Table.Error Table :=
  Table.ofList config.toList

def ofTable (table : Table) : Config :=
  ofList table.toList

end Config

end ClassNames
