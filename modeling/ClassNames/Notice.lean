/-!
# Notices

What the library has to say about its work, as data.  Nothing is written
anywhere: each operation that has something to report comes with a function that
lists its notices in order, and whoever runs it decides where they go.
-/

namespace ClassNames

/-- How much a notice matters. -/
inductive Notice.Level where
  | trace
  | debug
  | warn
deriving DecidableEq, Repr, Inhabited

/-- The upper-case name of a level. -/
def Notice.Level.name : Level → String
  | .trace => "TRACE"
  | .debug => "DEBUG"
  | .warn => "WARN"

/-- Something worth reporting. -/
inductive Notice where
  /-- A class name has more than one divider. -/
  | repeatedDivider (raw : String)
  /-- A class name gives way to a later one. -/
  | dropped (raw : String)
  /-- A table with that many groups takes the place of an owned one. -/
  | installed (groups : Nat)
  /-- A table with that many groups takes the place of a shared one. -/
  | installedShared (groups : Nat)
  /-- The entries of a table let two groups subsume each other. -/
  | rejected (parent child : String)
deriving DecidableEq, Repr, Inhabited

namespace Notice

def level : Notice → Level
  | .repeatedDivider _ | .dropped _ => .trace
  | .installed _ | .installedShared _ => .debug
  | .rejected _ _ => .warn

def message : Notice → String
  | .repeatedDivider raw =>
    "class name '" ++ raw ++ "' has more than one divider, keeping as is"
  | .dropped raw => "dropping superseded class name '" ++ raw ++ "'"
  | .installed groups =>
    "installing specificity table with " ++ groups.repr ++ " groups"
  | .installedShared groups =>
    "installing shared specificity table with " ++ groups.repr ++ " groups"
  | .rejected parent child =>
    "rejecting specificity mapping: '" ++ parent ++ "' and '" ++ child ++
      "' subsume each other"

end Notice

end ClassNames
