import ClassNames.Session

/-!
# What a step can do

A step either puts one whole table in place of the current one, or saves the current
one under a name, or changes nothing at all.  It answers that it is done in the first
two cases only.  Everything about sessions and their runs follows from this, whatever
the steps are and whoever holds the table.
-/

namespace ClassNames

namespace Session

/-- The step is meant to put another table in place of the current one. -/
def Step.isWrite : Step → Bool
  | .replace _ | .install _ | .load _ | .merge _ | .clear | .reset | .restore _ => true
  | .save _ | .same _ _ | .lookup _ _ | .info _ | .dump _ | .resolve _ _ | .compose _ _ =>
    false

/-- The step asks for something and is not meant to change anything. -/
def Step.isRead : Step → Bool
  | .same _ _ | .lookup _ _ | .info _ | .dump _ | .resolve _ _ | .compose _ _ => true
  | .replace _ | .install _ | .load _ | .merge _ | .clear | .reset | .restore _ | .save _ =>
    false

/-- The table that a writing step has to put in place of the current one.  There is
none if the step fails, and none for other steps. -/
def supplied? (session : Session) : Step → Option Table
  | .replace entries | .install entries => (Table.ofList entries).toOption
  | .load document => document.table.toOption
  | .merge entries => (session.current.extend entries).toOption
  | .clear => some Table.empty
  | .reset => some Table.builtIn
  | .restore slot => session.saved[slot]?
  | .save _ | .same _ _ | .lookup _ _ | .info _ | .dump _ | .resolve _ _ | .compose _ _ =>
    none

/-- The session in which the table is the current one. -/
def withCurrent (session : Session) (table : Table) : Session :=
  { session with current := table }

/-- The session in which the current table is saved. -/
def withSaved (session : Session) (slot : String) : Session :=
  { session with saved := session.saved.insert slot session.current }

/-- The step puts the table that it has to supply in place of the current one. -/
def Outcome.Writes (session : Session) (supplied : Option Table) (outcome : Outcome) : Prop :=
  ∃ table, supplied = some table ∧ outcome.session = session.withCurrent table ∧
    outcome.reply = .done

/-- The step changes nothing, and has nothing to supply. -/
def Outcome.Keeps (session : Session) (supplied : Option Table) (outcome : Outcome) : Prop :=
  supplied = none ∧ outcome.session = session ∧ outcome.reply ≠ .done

theorem write_cases (session : Session) (notices : Table → List Notice)
    (result : Except Table.Error Table) :
    (session.write notices result).Writes session result.toOption ∨
      (session.write notices result).Keeps session result.toOption := by
  cases result with
  | ok table => exact Or.inl ⟨table, rfl, rfl, rfl⟩
  | error error => exact Or.inr ⟨rfl, rfl, nofun⟩

theorem read_keeps (session : Session) (slot : Option String) {answer : Table → Reply}
    (notices : Table → List Notice) (hanswer : ∀ table, answer table ≠ .done) :
    (session.read slot answer notices).Keeps session none := by
  unfold read
  split
  · next table _ => exact ⟨rfl, rfl, hanswer table⟩
  · exact ⟨rfl, rfl, nofun⟩

/-- A writing step writes or keeps everything. -/
theorem run_of_isWrite (session : Session) {step : Step} (hwrite : step.isWrite) :
    (session.run step).Writes session (session.supplied? step) ∨
      (session.run step).Keeps session (session.supplied? step) := by
  cases step with
  | replace entries => exact write_cases session _ _
  | install entries => exact write_cases session _ _
  | load document => exact write_cases session _ _
  | merge entries => exact write_cases session _ _
  | clear => exact write_cases session _ (.ok Table.empty)
  | reset => exact write_cases session _ (.ok Table.builtIn)
  | restore slot =>
    rw [run, supplied?]
    split
    · next table hslot => exact hslot ▸ write_cases session _ (.ok table)
    · next hslot => exact Or.inr ⟨hslot, rfl, nofun⟩
  | save | same | lookup | info | dump | resolve | compose => cases hwrite

/-- A reading step keeps everything. -/
theorem run_of_isRead (session : Session) {step : Step} (hread : step.isRead) :
    (session.run step).Keeps session (session.supplied? step) := by
  cases step with
  | same left right =>
    apply read_keeps
    intro table
    split <;> nofun
  | lookup group slot => exact read_keeps session slot _ nofun
  | info slot => exact read_keeps session slot _ nofun
  | dump slot => exact read_keeps session slot _ nofun
  | resolve names slot => exact read_keeps session slot _ nofun
  | compose values slot => exact read_keeps session slot _ nofun
  | replace | install | load | merge | clear | reset | save | restore => cases hread

theorem isWrite_or_isRead_or_save (step : Step) :
    step.isWrite ∨ step.isRead ∨ ∃ slot, step = .save slot := by
  cases step with
  | save slot => exact Or.inr (Or.inr ⟨slot, rfl⟩)
  | replace | install | load | merge | clear | reset | restore => exact Or.inl rfl
  | same | lookup | info | dump | resolve | compose => exact Or.inr (Or.inl rfl)

/-- A step writes, or it saves, or it keeps everything. -/
theorem run_cases (session : Session) (step : Step) :
    (session.run step).Writes session (session.supplied? step) ∨
      (∃ slot, step = .save slot) ∨
      (session.run step).Keeps session (session.supplied? step) := by
  obtain hwrite | hread | hsave := isWrite_or_isRead_or_save step
  · exact (run_of_isWrite session hwrite).imp_right Or.inr
  · exact Or.inr (Or.inr (run_of_isRead session hread))
  · exact Or.inr (Or.inl hsave)

@[simp]
theorem session_run_save (session : Session) (slot : String) :
    (session.run (.save slot)).session = session.withSaved slot := rfl

/-- A step has a table to supply exactly when it is a writing one and succeeds. -/
theorem isSome_supplied?_iff {session : Session} {step : Step} :
    (session.supplied? step).isSome ↔
      step.isWrite ∧ (session.run step).reply = .done := by
  constructor
  · intro hsome
    have hwrite : step.isWrite := by
      cases step with
      | replace | install | load | merge | clear | reset | restore => rfl
      | save | same | lookup | info | dump | resolve | compose => cases hsome
    obtain ⟨table, -, -, hdone⟩ | ⟨hnone, -, -⟩ := run_of_isWrite session hwrite
    · exact ⟨hwrite, hdone⟩
    · rw [hnone] at hsome
      cases hsome
  · rintro ⟨hwrite, hdone⟩
    obtain ⟨table, hsome, -, -⟩ | ⟨-, -, hnot⟩ := run_of_isWrite session hwrite
    · rw [hsome]
      rfl
    · exact absurd hdone hnot

theorem session_run_of_supplied? {session : Session} {step : Step} {table : Table}
    (hsupplied : session.supplied? step = some table) :
    (session.run step).session = session.withCurrent table := by
  have hsome : (session.supplied? step).isSome := by rw [hsupplied]; rfl
  obtain ⟨hwrite, hdone⟩ := isSome_supplied?_iff.mp hsome
  obtain ⟨other, hother, hsession, -⟩ | ⟨-, -, hnot⟩ := run_of_isWrite session hwrite
  · rw [hsession, Option.some.inj (hsupplied.symm.trans hother)]
  · exact absurd hdone hnot

theorem session_run_of_failed {session : Session} {step : Step} {error : Table.Error}
    (hfailed : (session.run step).reply = .failed error) :
    (session.run step).session = session := by
  obtain ⟨-, -, -, hdone⟩ | ⟨slot, rfl⟩ | ⟨-, hsession, -⟩ := run_cases session step
  · rw [hdone] at hfailed
    cases hfailed
  · cases hfailed
  · exact hsession

/-! ## Runs -/

/-- The session after the steps. -/
def after (session : Session) (steps : List Step) : Session :=
  steps.foldl (fun current step => (current.run step).session) session

@[simp]
theorem after_nil (session : Session) : session.after [] = session := rfl

@[simp]
theorem after_cons (session : Session) (step : Step) (steps : List Step) :
    session.after (step :: steps) = (session.run step).session.after steps := rfl

theorem after_append (session : Session) (before later : List Step) :
    session.after (before ++ later) = (session.after before).after later :=
  List.foldl_append

/-- Each outcome of a run is that of one step after all the steps before it. -/
theorem getElem?_runAll (session : Session) (steps : List Step) (place : Nat) :
    (session.runAll steps)[place]? =
      steps[place]?.map (session.after (steps.take place)).run := by
  induction steps generalizing session place with
  | nil => rfl
  | cons step steps ih =>
    cases place with
    | zero => rfl
    | succ place =>
      rw [runAll, List.getElem?_cons_succ, ih]
      rfl

end Session

end ClassNames
