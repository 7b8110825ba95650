import ClassNames.Proofs.Listing
import ClassNames.Proofs.Steps

/-!
# Every table is valid

Installing a finished table, starting over and going back to a saved table do not check
anything.  They need not: the checks that were made when the table came about are
enough, because there is no way to a table around them.  So no run of a session, however
it goes on and whatever fails in it, ever shows a table that is not valid, and each one
can be taken apart into its entries and put together again.
-/

namespace ClassNames

/-- Where the first table of a session can come from. -/
inductive Origin where
  | builtIn
  | empty
  | listed (entries : List (String × List String))
  | written (document : Document)

/-- The first table, if there is one. -/
def Origin.table : Origin → Except Table.Error Table
  | .builtIn => .ok Table.builtIn
  | .empty => .ok Table.empty
  | .listed entries => Table.ofList entries
  | .written document => document.table

theorem Document.valid_of_table_eq_ok {document : Document} {table : Table}
    (htable : document.table = .ok table) : table.Valid := by
  unfold Document.table at htable
  cases hconfig : document.config with
  | error error =>
    rw [hconfig] at htable
    cases htable
  | ok content =>
    rw [hconfig] at htable
    exact Table.valid_of_ofList_eq_ok htable

theorem Origin.valid_of_table_eq_ok {origin : Origin} {table : Table}
    (htable : origin.table = .ok table) : table.Valid := by
  cases origin with
  | builtIn =>
    cases htable
    exact Table.valid_builtIn
  | empty =>
    cases htable
    exact Table.valid_empty
  | listed entries => exact Table.valid_of_ofList_eq_ok htable
  | written document => exact Document.valid_of_table_eq_ok htable

namespace Session

/-- The table is the current one or a saved one. -/
def Holds (session : Session) (table : Table) : Prop :=
  session.current = table ∨ ∃ slot : String, session.saved[slot]? = some table

/-- The table is there before the run or after one of its steps. -/
def Observes (session : Session) (steps : List Step) (table : Table) : Prop :=
  session.Holds table ∨ ∃ outcome ∈ session.runAll steps, outcome.session.Holds table

/-- Every table of the session is valid. -/
def Valid (session : Session) : Prop :=
  ∀ table, session.Holds table → table.Valid

variable {session : Session}

theorem toOption_eq_some_iff {result : Except Table.Error Table} {table : Table} :
    result.toOption = some table ↔ result = .ok table := by
  cases result with
  | ok value => simp [Except.toOption]
  | error error => simp [Except.toOption]

/-- A step supplies a valid table, from outside or from the session itself. -/
theorem Valid.of_supplied? (hvalid : session.Valid) {step : Step} {table : Table}
    (hsupplied : session.supplied? step = some table) : table.Valid := by
  cases step with
  | replace entries | install entries | merge entries =>
    exact Table.valid_of_ofList_eq_ok (toOption_eq_some_iff.mp hsupplied)
  | load document =>
    exact Document.valid_of_table_eq_ok (toOption_eq_some_iff.mp hsupplied)
  | clear =>
    cases hsupplied
    exact Table.valid_empty
  | reset =>
    cases hsupplied
    exact Table.valid_builtIn
  | restore slot => exact hvalid table (Or.inr ⟨slot, hsupplied⟩)
  | save | same | lookup | info | dump | resolve | compose => cases hsupplied

theorem Valid.withCurrent (hvalid : session.Valid) {table : Table} (htable : table.Valid) :
    (session.withCurrent table).Valid := by
  rintro other (rfl | ⟨slot, hslot⟩)
  · exact htable
  · exact hvalid other (Or.inr ⟨slot, hslot⟩)

theorem Valid.withSaved (hvalid : session.Valid) (slot : String) :
    (session.withSaved slot).Valid := by
  have hcurrent : session.current.Valid := hvalid session.current (Or.inl rfl)
  rintro other (rfl | ⟨name, hname⟩)
  · exact hcurrent
  · rw [Session.withSaved, Std.ExtTreeMap.getElem?_insert] at hname
    split at hname
    · cases hname
      exact hcurrent
    · exact hvalid other (Or.inr ⟨name, hname⟩)

/-- The step of the invariant. -/
theorem Valid.run (hvalid : session.Valid) (step : Step) : (session.run step).session.Valid := by
  obtain ⟨table, hsupplied, hsession, -⟩ | ⟨slot, rfl⟩ | ⟨-, hsession, -⟩ :=
    run_cases session step
  · rw [hsession]
    exact hvalid.withCurrent (hvalid.of_supplied? hsupplied)
  · exact hvalid.withSaved slot
  · rw [hsession]
    exact hvalid

theorem Valid.after (hvalid : session.Valid) (steps : List Step) :
    (session.after steps).Valid := by
  induction steps generalizing session with
  | nil => exact hvalid
  | cons step steps ih => exact ih (hvalid.run step)

theorem valid_start (holder : Holder) {table : Table} (htable : table.Valid) :
    (start holder table).Valid := by
  rintro other (rfl | ⟨slot, hslot⟩)
  · cases holder with
    | owned | shared => exact htable
    | processWide => exact Table.valid_builtIn
  · simp [start] at hslot

theorem Valid.of_observes (hvalid : session.Valid) {steps : List Step} {table : Table}
    (hobserves : session.Observes steps table) : table.Valid := by
  obtain hholds | ⟨outcome, hmem, hholds⟩ := hobserves
  · exact hvalid table hholds
  · obtain ⟨place, hplace⟩ := List.mem_iff_getElem?.mp hmem
    rw [getElem?_runAll, Option.map_eq_some_iff] at hplace
    obtain ⟨step, -, rfl⟩ := hplace
    exact ((hvalid.after _).run step) table hholds

/-- No run shows a table in which two different groups subsume each other, and every
table that it shows is built again from its entries, directly and through a config
document. -/
theorem observed_table_valid {origin : Origin} {first : Table}
    (horigin : origin.table = .ok first) (holder : Holder) (steps : List Step) {table : Table}
    (hobserves : (start holder first).Observes steps table) :
    (∀ left right, left ≠ right → right ∈ table.children left →
        left ∉ table.children right) ∧
      Table.ofList table.toList = .ok table ∧
      (Config.ofTable table).toTable = .ok table := by
  have hstart := valid_start holder (Origin.valid_of_table_eq_ok horigin)
  have hvalid := hstart.of_observes hobserves
  exact ⟨hvalid, Table.ofList_toList hvalid, Config.toTable_ofTable hvalid⟩

/-- The last step would make `gap` and `gapx` subsume each other, and fails. -/
theorem observed_table_valid_gap :
    let table := Table.collect [("gap", ["gapx", "gap"])]
    let steps := [.save "kept", .clear, .merge [("gap", ["gapx", "gap"])],
      .merge [("gapx", ["gap"])]]
    (start .shared Table.builtIn).Observes steps table ∧
      (∀ left right, left ≠ right → right ∈ table.children left →
        left ∉ table.children right) ∧
      Table.ofList table.toList = .ok table ∧
      (Config.ofTable table).toTable = .ok table := by
  intro table steps
  have hobserves : (start .shared Table.builtIn).Observes steps table := by
    refine Or.inr ⟨_, List.mem_of_getElem? (i := 3) rfl, Or.inl ?_⟩
    decide +kernel
  have horigin : Origin.builtIn.table = .ok Table.builtIn := rfl
  exact ⟨hobserves, observed_table_valid horigin .shared steps hobserves⟩

end Session

end ClassNames
