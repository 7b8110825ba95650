import ClassNames.Contribution
import ClassNames.Config.Document

/-!
# Sessions

A session works on one current table and on tables that it has saved under names.
The current table is only ever replaced as a whole: a step that changes it supplies
a complete new table, and a step that fails leaves everything as it was.

Who holds the table makes a difference only to what is reported: an owned table is
reported when its entries are replaced, a shared one whenever a table is installed.
The process-wide table is a shared one that starts out built in.
-/

namespace ClassNames

/-- The notices of entries that make no table. -/
def Table.Error.notices : Table.Error → List Notice
  | .reciprocal parent child => [.rejected parent child]
  | .unreadable _ => []

/-- Who holds the current table. -/
inductive Holder where
  | owned
  | shared
  | processWide
deriving DecidableEq, Repr, Inhabited

namespace Holder

/-- The notices of installing a finished table. -/
def installNotices : Holder → Table → List Notice
  | .owned, _ => []
  | .shared, table | .processWide, table => [.installedShared table.size]

/-- The notices of replacing the entries of the current table. -/
def replaceNotices : Holder → Table → List Notice
  | .owned, table => [.installed table.size]
  | .shared, table | .processWide, table => [.installedShared table.size]

end Holder

/-- The current table, and the saved ones by name. -/
structure Session where
  holder : Holder
  current : Table
  saved : Std.ExtTreeMap String Table
deriving DecidableEq

namespace Session

/-- A step of a session.  Steps that read take the name of a saved table, or none
for the current one. -/
inductive Step where
  | replace (entries : List (String × List String))
  | install (entries : List (String × List String))
  | load (document : Document)
  /-- Overwrites the entries of the current table. -/
  | merge (entries : List (String × List String))
  | clear
  | reset
  | save (slot : String)
  | restore (slot : String)
  /-- Asks whether two tables are equal. -/
  | same (left right : Option String)
  | lookup (group : String) (slot : Option String)
  | info (slot : Option String)
  | dump (slot : Option String)
  | resolve (names : List String) (slot : Option String)
  | compose (values : List Contribution) (slot : Option String)
deriving Inhabited

/-- What a step answers. -/
inductive Reply where
  | done
  | failed (error : Table.Error)
  | unsaved (slot : String)
  | equal (answer : Bool)
  | lookup (hasGroup : Bool) (children : List String)
  | info (size : Nat) (groups : List String)
  /-- The table and its config document, both in JSON. -/
  | dump (table config : String)
  | names (names : List String)
  | text (text : String)
deriving DecidableEq, Repr, Inhabited

/-- The session after a step, the answer and the notices. -/
structure Outcome where
  session : Session
  reply : Reply
  notices : List Notice

/-- A session that starts with the given table, unless the table is process-wide. -/
def start (holder : Holder) (table : Table) : Session :=
  let current := match holder with
    | .owned | .shared => table
    | .processWide => Table.builtIn
  ⟨holder, current, ∅⟩

/-- The saved table of that name, or the current one. -/
def tableAt? (session : Session) : Option String → Option Table
  | none => some session.current
  | some slot => session.saved[slot]?

/-- Makes the table the current one, or fails and changes nothing. -/
def write (session : Session) (notices : Table → List Notice) :
    Except Table.Error Table → Outcome
  | .ok table => ⟨{ session with current := table }, .done, notices table⟩
  | .error error => ⟨session, .failed error, error.notices⟩

/-- Answers from a table and changes nothing. -/
def read (session : Session) (slot : Option String) (answer : Table → Reply)
    (notices : Table → List Notice) : Outcome :=
  match session.tableAt? slot with
  | some table => ⟨session, answer table, notices table⟩
  | none => ⟨session, .unsaved (slot.getD ""), []⟩

def silent (_ : Table) : List Notice := []

/-- Runs one step. -/
def run (session : Session) : Step → Outcome
  | .replace entries => session.write session.holder.replaceNotices (Table.ofList entries)
  | .install entries => session.write session.holder.installNotices (Table.ofList entries)
  | .load document => session.write session.holder.installNotices document.table
  | .merge entries =>
    session.write session.holder.replaceNotices (session.current.extend entries)
  | .clear => session.write session.holder.installNotices (.ok Table.empty)
  | .reset => session.write session.holder.installNotices (.ok Table.builtIn)
  | .save slot =>
    ⟨{ session with saved := session.saved.insert slot session.current }, .done, []⟩
  | .restore slot =>
    match session.saved[slot]? with
    | some table => session.write session.holder.installNotices (.ok table)
    | none => ⟨session, .unsaved slot, []⟩
  | .same left right =>
    session.read left (fun table =>
      match session.tableAt? right with
      | some other => .equal (table = other)
      | none => .unsaved (right.getD "")) silent
  | .lookup group slot =>
    session.read slot
      (fun table => .lookup (table.hasGroup group) (table.children group).toList) silent
  | .info slot =>
    session.read slot (fun table => .info table.size table.groupNames) silent
  | .dump slot =>
    session.read slot (fun table => .dump table.toJson (Config.ofTable table).toJson) silent
  | .resolve names slot =>
    session.read slot (fun table => .names (table.resolve names))
      fun table => table.resolveNotices names
  | .compose values slot =>
    session.read slot (fun table => .text (table.compose values))
      fun table => table.composeNotices values

/-- Runs the steps in order.  The outcomes are those of all steps. -/
def runAll (session : Session) : List Step → List Outcome
  | [] => []
  | step :: steps =>
    let outcome := session.run step
    outcome :: outcome.session.runAll steps

end Session

end ClassNames
