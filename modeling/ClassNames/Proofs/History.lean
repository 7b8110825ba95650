import ClassNames.Proofs.Steps

/-!
# The history of a session

The current table of a session is the one that the last successful write supplied, and
a saved table is the one that was current when it was saved.  Steps that fail and steps
that only ask for something leave no trace.  Who holds the table leaves none either,
except in what is reported about installing it.
-/

namespace ClassNames

/-- The notice says that a table was installed. -/
def Notice.isInstallation : Notice → Bool
  | .installed _ | .installedShared _ => true
  | .repeatedDivider _ | .dropped _ | .rejected _ _ => false

namespace Session

variable {session : Session}

/-! ## The last write -/

/-- No step of the run writes. -/
def Idle (session : Session) (steps : List Step) : Prop :=
  ∀ before step later, steps = before ++ step :: later →
    (session.after before).supplied? step = none

/-- Some step of the run supplies the table, and no step after it writes. -/
def LastWrite (session : Session) (steps : List Step) (table : Table) : Prop :=
  ∃ before step later, steps = before ++ step :: later ∧
    (session.after before).supplied? step = some table ∧
    (session.after (before ++ [step])).Idle later

theorem idle_nil (session : Session) : session.Idle [] := by
  intro before step later hsplit
  have hnil := (List.append_eq_nil_iff.mp hsplit.symm).2
  cases hnil

theorem Idle.cons {step : Step} {steps : List Step} (hstep : session.supplied? step = none)
    (hsteps : (session.run step).session.Idle steps) : session.Idle (step :: steps) := by
  intro before other later hsplit
  cases before with
  | nil =>
    obtain ⟨rfl, -⟩ := List.cons.inj hsplit
    exact hstep
  | cons head before =>
    obtain ⟨rfl, hrest⟩ := List.cons.inj hsplit
    exact hsteps before other later hrest

theorem LastWrite.cons {step : Step} {steps : List Step} {table : Table}
    (hlast : (session.run step).session.LastWrite steps table) :
    session.LastWrite (step :: steps) table := by
  obtain ⟨before, other, later, rfl, hsupplied, hidle⟩ := hlast
  exact ⟨step :: before, other, later, rfl, hsupplied, hidle⟩

theorem current_run_of_supplied?_eq_none {step : Step}
    (hnone : session.supplied? step = none) :
    (session.run step).session.current = session.current := by
  obtain ⟨table, hsome, -, -⟩ | ⟨slot, rfl⟩ | ⟨-, hsession, -⟩ := run_cases session step
  · rw [hnone] at hsome
    cases hsome
  · rfl
  · rw [hsession]

/-- The current table is the one of the last write, or still the first one. -/
theorem idle_or_lastWrite (session : Session) (steps : List Step) :
    (session.Idle steps ∧ (session.after steps).current = session.current) ∨
      session.LastWrite steps (session.after steps).current := by
  induction steps generalizing session with
  | nil => exact Or.inl ⟨idle_nil session, rfl⟩
  | cons step steps ih =>
    obtain ⟨hidle, hcurrent⟩ | hlast := ih (session.run step).session
    · cases hsupplied : session.supplied? step with
      | none =>
        have hsame := current_run_of_supplied?_eq_none hsupplied
        exact Or.inl ⟨hidle.cons hsupplied, hcurrent.trans hsame⟩
      | some table =>
        have hwritten : (session.after (step :: steps)).current = table := by
          rw [after_cons, hcurrent, session_run_of_supplied? hsupplied]
          rfl
        rw [hwritten]
        exact Or.inr ⟨[], step, steps, rfl, hsupplied, hidle⟩
    · exact Or.inr hlast.cons

/-! ## Saved tables -/

theorem saved_run {slot : String} {step : Step} (hstep : step ≠ .save slot) :
    (session.run step).session.saved[slot]? = session.saved[slot]? := by
  obtain ⟨table, -, hsession, -⟩ | ⟨other, rfl⟩ | ⟨-, hsession, -⟩ := run_cases session step
  · rw [hsession]
    rfl
  · have hne : other ≠ slot := by
      rintro rfl
      exact hstep rfl
    rw [session_run_save, withSaved, Std.ExtTreeMap.getElem?_insert, if_neg (by simpa using hne)]
  · rw [hsession]

theorem saved_after {slot : String} {steps : List Step} (hsteps : .save slot ∉ steps) :
    (session.after steps).saved[slot]? = session.saved[slot]? := by
  induction steps generalizing session with
  | nil => rfl
  | cons step steps ih =>
    rw [List.mem_cons, not_or] at hsteps
    rw [after_cons, ih hsteps.2, saved_run (Ne.symm hsteps.1)]

/-- What is saved stays what it was, whatever happens then. -/
theorem saved_after_save (session : Session) (before : List Step) {later : List Step}
    {slot : String} (hlater : .save slot ∉ later) :
    (session.after (before ++ .save slot :: later)).saved[slot]? =
      some (session.after before).current := by
  rw [after_append, after_cons, saved_after hlater, session_run_save, withSaved,
    Std.ExtTreeMap.getElem?_insert_self]

/-- The saved table answers as the current one of the other session does. -/
def AnswersAs (session : Session) (slot : String) (other : Session) : Prop :=
  (∀ group, (session.run (.lookup group (some slot))).reply =
      (other.run (.lookup group none)).reply) ∧
    (∀ names, (session.run (.resolve names (some slot))).reply =
      (other.run (.resolve names none)).reply) ∧
    ∀ values, (session.run (.compose values (some slot))).reply =
      (other.run (.compose values none)).reply

theorem answersAs_of_saved {slot : String} {other : Session}
    (hslot : session.saved[slot]? = some other.current) : session.AnswersAs slot other := by
  have hread (answer : Table → Reply) (notices : Table → List Notice) :
      (session.read (some slot) answer notices).reply =
        (other.read none answer notices).reply := by
    simp only [read, tableAt?, hslot]
  exact ⟨fun group => hread _ _, fun names => hread _ _, fun values => hread _ _⟩

/-! ## Holders -/

/-- What an outcome comes to, whoever holds the table. -/
structure Effect where
  reply : Reply
  current : Table
  saved : Std.ExtTreeMap String Table
  /-- What is reported, except about installing tables. -/
  notices : List Notice

def Outcome.effect (outcome : Outcome) : Effect where
  reply := outcome.reply
  current := outcome.session.current
  saved := outcome.session.saved
  notices := outcome.notices.filter (!·.isInstallation)

/-- The session with the same tables in other hands. -/
def heldBy (session : Session) (holder : Holder) : Session :=
  { session with holder := holder }

/-- The two outcomes come to the same, in different hands. -/
def Outcome.Matches (holder : Holder) (left right : Outcome) : Prop :=
  left.session = right.session.heldBy holder ∧ left.effect = right.effect

theorem installNotices_filter (holder : Holder) (table : Table) :
    (holder.installNotices table).filter (!·.isInstallation) = [] := by
  cases holder <;> rfl

theorem replaceNotices_filter (holder : Holder) (table : Table) :
    (holder.replaceNotices table).filter (!·.isInstallation) = [] := by
  cases holder <;> rfl

theorem write_matches (session : Session) (holder : Holder) {left right : Table → List Notice}
    (hleft : ∀ table, (left table).filter (!·.isInstallation) = [])
    (hright : ∀ table, (right table).filter (!·.isInstallation) = [])
    (result : Except Table.Error Table) :
    ((session.heldBy holder).write left result).Matches holder (session.write right result) := by
  cases result with
  | ok table =>
    refine ⟨rfl, ?_⟩
    simp only [Outcome.effect, write, heldBy, hleft, hright]
  | error error => exact ⟨rfl, rfl⟩

theorem read_matches (session : Session) (holder : Holder) (slot : Option String)
    (answer : Table → Reply) (notices : Table → List Notice) :
    ((session.heldBy holder).read slot answer notices).Matches holder
      (session.read slot answer notices) := by
  have htable : (session.heldBy holder).tableAt? slot = session.tableAt? slot := by
    cases slot <;> rfl
  unfold read
  rw [htable]
  split <;> exact ⟨rfl, rfl⟩

/-- One step comes to the same in all hands. -/
theorem run_matches (session : Session) (holder : Holder) (step : Step) :
    ((session.heldBy holder).run step).Matches holder (session.run step) := by
  have hinstall := write_matches session holder
    (installNotices_filter holder) (installNotices_filter session.holder)
  have hreplace := write_matches session holder
    (replaceNotices_filter holder) (replaceNotices_filter session.holder)
  cases step with
  | replace entries => exact hreplace _
  | install entries => exact hinstall _
  | load document => exact hinstall _
  | merge entries => exact hreplace _
  | clear => exact hinstall _
  | reset => exact hinstall _
  | save slot => exact ⟨rfl, rfl⟩
  | restore slot =>
    simp only [run, heldBy]
    split
    · exact hinstall _
    · exact ⟨rfl, rfl⟩
  | same left right =>
    have hright : (session.heldBy holder).tableAt? right = session.tableAt? right := by
      cases right <;> rfl
    simp only [run, hright]
    exact read_matches session holder left _ _
  | lookup group slot => exact read_matches session holder slot _ _
  | info slot => exact read_matches session holder slot _ _
  | dump slot => exact read_matches session holder slot _ _
  | resolve names slot => exact read_matches session holder slot _ _
  | compose values slot => exact read_matches session holder slot _ _

/-- A run comes to the same in all hands. -/
theorem effect_runAll_heldBy (session : Session) (holder : Holder) (steps : List Step) :
    ((session.heldBy holder).runAll steps).map Outcome.effect =
      (session.runAll steps).map Outcome.effect := by
  induction steps generalizing session with
  | nil => rfl
  | cons step steps ih =>
    obtain ⟨hsession, heffect⟩ := run_matches session holder step
    simp only [runAll, List.map_cons, heffect, hsession, ih]

theorem start_eq_heldBy {holder : Holder} {table : Table}
    (htable : holder = .processWide → table = Table.builtIn) :
    start holder table = (start .owned table).heldBy holder := by
  cases holder with
  | owned | shared => rfl
  | processWide =>
    rw [htable rfl]
    rfl

/-- Tables change as a whole and through successful writes alone.  A step that fails or
only asks changes nothing, the current table is the one of the last write or the first
one, a saved table answers for ever as it did when it was current, and all of this goes
the same way whoever holds the table. -/
theorem tables_change_by_writes :
    (∀ (session : Session) (step : Step),
      ((session.supplied? step).isSome ↔
        step.isWrite ∧ (session.run step).reply = .done) ∧
      (step.isRead ∨ (∃ error, (session.run step).reply = .failed error) →
        (session.run step).session = session)) ∧
    (∀ (session : Session) (steps : List Step),
      (session.Idle steps ∧ (session.after steps).current = session.current) ∨
        session.LastWrite steps (session.after steps).current) ∧
    (∀ (session : Session) (before later : List Step) (slot : String),
      .save slot ∉ later →
        (session.after (before ++ .save slot :: later)).saved[slot]? =
            some (session.after before).current ∧
          (session.after (before ++ .save slot :: later)).AnswersAs slot
            (session.after before)) ∧
    ∀ (holder : Holder) (table : Table) (steps : List Step),
      (holder = .processWide → table = Table.builtIn) →
        ((start holder table).runAll steps).map Outcome.effect =
          ((start .owned table).runAll steps).map Outcome.effect := by
  refine ⟨fun session step => ⟨isSome_supplied?_iff, ?_⟩, idle_or_lastWrite, ?_, ?_⟩
  · rintro (hread | ⟨error, hfailed⟩)
    · exact (run_of_isRead _ hread).2.1
    · exact session_run_of_failed hfailed
  · intro session before later slot hlater
    have hsaved := saved_after_save session before hlater
    exact ⟨hsaved, answersAs_of_saved hsaved⟩
  · intro holder table steps htable
    rw [start_eq_heldBy htable, effect_runAll_heldBy]

/-- A cycle is refused, and a table that was saved before it outlives being cleared. -/
theorem tables_change_by_writes_kept :
    let first := start .processWide Table.builtIn
    let cycle : Step := .merge [("px", ["p"])]
    let before : List Step := [.replace [("gap", ["gapx"])]]
    let later : List Step := [.clear, cycle, .save "other"]
    (first.run cycle).reply = .failed (.reciprocal "p" "px") ∧
      (first.run cycle).session = first ∧
      .save "kept" ∉ later ∧
      (first.after (before ++ .save "kept" :: later)).AnswersAs "kept" (first.after before) ∧
      (first.runAll later).map Outcome.effect =
        ((start .owned Table.builtIn).runAll later).map Outcome.effect := by
  intro first cycle before later
  obtain ⟨hsteps, -, hsaved, hholders⟩ := tables_change_by_writes
  have hcycle : (first.run cycle).reply = .failed (.reciprocal "p" "px") := by
    decide +kernel
  have hlater : .save "kept" ∉ later := by
    simp [later, cycle]
  exact ⟨hcycle, (hsteps first cycle).2 (Or.inr ⟨_, hcycle⟩), hlater,
    (hsaved first before later "kept" hlater).2, hholders .processWide _ later fun _ => rfl⟩

end Session

end ClassNames
