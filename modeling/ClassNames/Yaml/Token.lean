/-!
# YAML tokens

What a YAML text consists of once its indentation is read: block collections have
signs for their start and end as flow collections do, and every key has a sign.
-/

namespace ClassNames.Yaml

/-- A line that says how the document after it is to be read. -/
inductive Directive where
  | version (major minor : Nat)
  /-- Declares a handle for tags. -/
  | tag (handle : String)
deriving DecidableEq, Repr

inductive Token where
  | directive (content : Directive)
  | documentStart
  | documentEnd
  | sequenceStart
  | mappingStart
  /-- Ends a block collection. -/
  | blockEnd
  | flowSequenceStart
  | flowSequenceEnd
  | flowMappingStart
  | flowMappingEnd
  /-- The dash before an entry of a block sequence. -/
  | entry
  /-- The comma between the entries of a flow collection. -/
  | separator
  | key
  | value
  | alias (name : String)
  | anchor (name : String)
  /-- A tag, with its handle if that has to be declared. -/
  | tag (handle? : Option String)
  | scalar (text : String) (plain : Bool)
deriving DecidableEq, Repr

end ClassNames.Yaml
