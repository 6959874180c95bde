import Stepwise.CommandLine.Program
import Stepwise.Proofs.Failure
import Stepwise.Proofs.Interpreter.ScriptDeeds

namespace Stepwise

namespace Interpreter

/-- The interpreters differ in nothing but the display. -/
def Beside (s t : Interpreter) : Prop := ∃ display, t = { s with display }

variable {s t : Interpreter}

theorem Beside.refl (s : Interpreter) : s.Beside s := ⟨s.display, rfl⟩

theorem Beside.running_eq (h : s.Beside t) : t.running = s.running := by
  obtain ⟨display, rfl⟩ := h
  rfl

theorem Beside.store_eq (h : s.Beside t) : t.store = s.store := by
  obtain ⟨display, rfl⟩ := h
  rfl

/-- Both fail for one reason, or go on side by side. What they say may differ. -/
abbrev GoOn (x y : Except ExecutionError (Interpreter × Option String)) : Prop :=
  SameOutcome (fun a b => a.1.Beside b.1) x y

theorem makeStep_beside (h : s.Beside t) (ref : RuleRef) (depth : Nat) :
    GoOn (s.makeStep ref depth) (t.makeStep ref depth) := by
  obtain ⟨display, rfl⟩ := h
  unfold makeStep
  dsimp only
  cases s.session.step s.registry ref depth with
  | error e => exact .error _
  | ok result => exact .ok ⟨display, rfl⟩

theorem undoStep_beside (h : s.Beside t) : GoOn s.undoStep t.undoStep := by
  obtain ⟨display, rfl⟩ := h
  unfold undoStep
  dsimp only
  cases s.session.undo with
  | error e => exact .error _
  | ok result => exact .ok ⟨display, rfl⟩

theorem writeDerivation_beside (h : s.Beside t) (d : Derivation) (path : Option String) :
    SameOutcome (fun a b => a.1.Beside b.1) (s.writeDerivation d path)
      (t.writeDerivation d path) := by
  obtain ⟨display, rfl⟩ := h
  cases path with
  | none => exact .ok ⟨display, rfl⟩
  | some path =>
    have houtput : ({ s with display } : Interpreter).outputPath path = s.outputPath path := rfl
    simp only [writeDerivation, houtput]
    split
    · exact .ok ⟨display, rfl⟩
    · cases d.save s.store (s.outputPath path) with
      | error e => exact .error e
      | ok store => exact .ok ⟨display, rfl⟩

theorem finish_beside (h : s.Beside t) (path : Option String) :
    GoOn (s.finish path) (t.finish path) := by
  have hwrite (d : Derivation) := writeDerivation_beside h d path
  obtain ⟨display, rfl⟩ := h
  unfold finish
  dsimp only
  cases s.session.derivation with
  | error e => exact .ok ⟨display, rfl⟩
  | ok d =>
    refine (hwrite d).bind_mapError ?_
    rintro ⟨after, written⟩ ⟨after', written'⟩ ⟨display', rfl⟩
    exact .ok ⟨display', rfl⟩

theorem startSession_beside (h : s.Beside t) (u : Term) :
    (s.startSession u).1.Beside (t.startSession u).1 := by
  obtain ⟨display, rfl⟩ := h
  unfold startSession
  dsimp only
  cases s.session.current? with
  | some current => exact ⟨display, rfl⟩
  | none => exact ⟨display, rfl⟩

theorem execute_beside (h : s.Beside t) (statement : Statement) :
    GoOn (s.execute statement) (t.execute statement) := by
  cases statement with
  | define name rule =>
    obtain ⟨display, rfl⟩ := h
    exact .ok ⟨display, rfl⟩
  | inline rule depth => exact makeStep_beside h (.inline rule) depth
  | apply name depth => exact makeStep_beside h (.named name) depth
  | start u => exact .ok (startSession_beside h u)
  | finish path => exact finish_beside h path
  | undo => exact undoStep_beside h
  | quit =>
    obtain ⟨display, rfl⟩ := h
    exact .ok ⟨display, rfl⟩

theorem executed_beside (h : s.Beside t) (statements : List Statement) :
    t.executed statements = s.executed statements := by
  induction statements generalizing s t with
  | nil => rfl
  | cons statement statements ih =>
    rw [executed, executed]
    have hexecute := execute_beside h statement
    generalize s.execute statement = x, t.execute statement = y at hexecute
    cases hexecute with
    | error e => rfl
    | @ok a b hafter =>
      obtain ⟨after, said⟩ := a
      obtain ⟨after', said'⟩ := b
      have hbeside : after.Beside after' := hafter
      dsimp only
      rw [hbeside.running_eq, ih hbeside]

theorem executeAll_beside (h : s.Beside t) (statements : List Statement) :
    (s.executeAll statements).state.Beside (t.executeAll statements).state ∧
      (t.executeAll statements).ending = (s.executeAll statements).ending := by
  induction statements generalizing s t with
  | nil => exact ⟨h, rfl⟩
  | cons statement statements ih =>
    rw [executeAll, executeAll]
    have hexecute := execute_beside h statement
    generalize s.execute statement = x, t.execute statement = y at hexecute
    cases hexecute with
    | error e => exact ⟨h, rfl⟩
    | @ok a b hafter =>
      obtain ⟨after, said⟩ := a
      obtain ⟨after', said'⟩ := b
      dsimp only at hafter ⊢
      rw [hafter.running_eq]
      cases after.running with
      | false => exact ⟨hafter, rfl⟩
      | true => exact ih hafter

theorem not_isComplaint_append {c : Char} {start : List Char} (hc : c ≠ 'E' ∧ c ≠ 'U')
    (rest : String) : isComplaint (String.ofList (c :: start) ++ rest) = false := by
  simp [isComplaint, Text.beginsWith, List.isPrefixOf, hc.1.symm, hc.2.symm]

/-- Both fail for one reason, or go on side by side with the same complaint, if there is one. -/
abbrev Answer.Beside (x y : Answer) : Prop :=
  SameOutcome (fun a b => a.1.Beside b.1 ∧ b.2.filter isComplaint = a.2.filter isComplaint) x y

theorem chooseDisplay_beside (h : s.Beside t) (name : String) :
    Answer.Beside (s.chooseDisplay name) (t.chooseDisplay name) := by
  obtain ⟨display, rfl⟩ := h
  have hnone (d : Display) : (some ("Notation: " ++ d.name)).filter isComplaint = none := by
    have hsaid : isComplaint ("Notation: " ++ d.name) = false :=
      @not_isComplaint_append 'N' "otation: ".toList (by decide) d.name
    simp [hsaid]
  unfold chooseDisplay
  split
  · exact .ok ⟨⟨display, rfl⟩, by rw [hnone, hnone]⟩
  · cases Display.ofName? (Text.lowercase name) with
    | some chosen => exact .ok ⟨Beside.refl _, rfl⟩
    | none => exact .ok ⟨⟨display, rfl⟩, rfl⟩

theorem loadFile_beside (h : s.Beside t) (file : String) :
    Answer.Beside (s.loadFile file) (t.loadFile file) := by
  obtain ⟨display, rfl⟩ := h
  unfold loadFile load
  dsimp only
  cases s.store.readRules (Files.Path.ofString file) with
  | ok rules => exact .ok ⟨⟨display, rfl⟩, rfl⟩
  | error error =>
    simp only [bind, Except.bind]
    cases error.report with
    | error fatal => exact .error fatal
    | ok message => exact .ok ⟨⟨display, rfl⟩, rfl⟩

theorem command_beside (h : s.Beside t) (c : Command) :
    Answer.Beside (s.command c) (t.command c) := by
  cases c with
  | load file =>
    simp only [command]
    split
    · exact .ok ⟨h, rfl⟩
    · exact loadFile_beside h file
  | display name => exact chooseDisplay_beside h name
  | help | quit | rules | clear | history | unknown | missing =>
    obtain ⟨display, rfl⟩ := h
    exact .ok ⟨⟨display, rfl⟩, rfl⟩

/-- The scripts go on from states side by side, or they are over with the same outcome. -/
structure Advance.Beside (a b : Advance) : Prop where
  state : a.state.Beside b.state
  result : b.result = a.result

theorem advanceProgram_beside (h : s.Beside t) (quiet quiet' : Bool) (line : Nat) (text : String) :
    (s.advanceProgram quiet line text).Beside (t.advanceProgram quiet' line text) := by
  unfold advanceProgram
  cases readProgram text with
  | error error => exact ⟨h, rfl⟩
  | ok statements =>
    obtain ⟨hstate, hending⟩ := executeAll_beside h statements
    dsimp only
    rw [hending]
    exact ⟨hstate, rfl⟩

theorem advanceCommand_beside (h : s.Beside t) (line : Nat) (c : Command) :
    (s.advanceCommand line c).Beside (t.advanceCommand line c) := by
  unfold advanceCommand
  have hcommand := command_beside h c
  generalize s.command c = x, t.command c = y at hcommand
  cases hcommand with
  | error fatal => exact ⟨h, rfl⟩
  | @ok a b hafter =>
    obtain ⟨after, said⟩ := a
    obtain ⟨after', said'⟩ := b
    obtain ⟨hstate, hsaid⟩ := hafter
    dsimp only at hstate hsaid ⊢
    rw [hsaid, hstate.running_eq]
    cases said.filter isComplaint with
    | some message => exact ⟨hstate, rfl⟩
    | none => exact ⟨hstate, rfl⟩

/-- Both take in a line alike. -/
theorem advance_beside (h : s.Beside t) (quiet quiet' : Bool) (pending : Option OpenInput)
    (number : Nat) (line : String) :
    (s.advance quiet pending number line).1.Beside (t.advance quiet' pending number line).1 ∧
      (t.advance quiet' pending number line).2 = (s.advance quiet pending number line).2 ∧
      t.advanceDeeds pending line = s.advanceDeeds pending line := by
  have hdeeds (text : String) : t.programDeeds text = s.programDeeds text := by
    unfold programDeeds
    cases readProgram text with
    | error error => rfl
    | ok statements => simp only [executed_beside h]
  unfold advance advanceDeeds
  cases pending with
  | some input =>
    dsimp only
    rw [inputDeeds, inputDeeds, hdeeds]
    split
    · exact ⟨⟨h, rfl⟩, rfl, rfl⟩
    · exact ⟨advanceProgram_beside h quiet quiet' _ _, rfl, rfl⟩
  | none =>
    dsimp only
    cases Line.ofText line with
    | blank => exact ⟨⟨h, rfl⟩, rfl, rfl⟩
    | command c => exact ⟨advanceCommand_beside h number c, rfl, rfl⟩
    | program text =>
      dsimp only
      rw [inputDeeds, inputDeeds, hdeeds]
      split
      · exact ⟨⟨h, rfl⟩, rfl, rfl⟩
      · exact ⟨advanceProgram_beside h quiet quiet' _ _, rfl, rfl⟩

/-- Both runs do the same and end alike. What they print may differ. -/
structure RunsBeside (deeds deeds' : List Deed) (run run' : ScriptRun) : Prop where
  deeds : deeds' = deeds
  state : run.state.Beside run'.state
  outcome : run'.outcome = run.outcome

/-- Induction on the lines: after each of them the states are side by side again. -/
theorem runLines_beside (h : s.Beside t) (quiet quiet' : Bool) (pending : Option OpenInput)
    (number : Nat) (lines : List String) :
    RunsBeside (s.scriptDeeds quiet pending number lines)
      (t.scriptDeeds quiet' pending number lines) (s.runLines quiet pending number lines)
      (t.runLines quiet' pending number lines) := by
  induction lines generalizing s t pending number with
  | nil => exact ⟨rfl, h, rfl⟩
  | cons line lines ih =>
    obtain ⟨⟨hstate, hresult⟩, hnext, hdeeds⟩ :=
      advance_beside h quiet quiet' pending number line
    rw [scriptDeeds, scriptDeeds, runLines, runLines]
    dsimp only
    rw [hresult, hnext, hdeeds]
    cases (s.advance quiet pending number line).1.result with
    | some outcome => exact ⟨rfl, hstate, rfl⟩
    | none =>
      have hrest := ih hstate (s.advance quiet pending number line).2 (number + 1)
      exact ⟨congrArg _ hrest.deeds, hrest.state, hrest.outcome⟩

/-- Two runs of the same lines from states that differ in the display only, quiet or not, do the same
statements and commands, complain of the same, exit alike, leave the same files, and end in states
that differ in the display only. -/
theorem runScript_of_displays (s : Interpreter) (display display' : Display) (quiet quiet' : Bool)
    (source : String) (lines : List String) :
    let left : Interpreter := { s with display }
    let right : Interpreter := { s with display := display' }
    let outcome := (left.runScript quiet lines).outcomeFor source
    let outcome' := (right.runScript quiet' lines).outcomeFor source
    right.scriptDeeds quiet' none 1 lines = left.scriptDeeds quiet none 1 lines ∧
      outcome'.complaints = outcome.complaints ∧ outcome'.exit = outcome.exit ∧
      outcome'.store = outcome.store ∧
      ∃ last, (right.runScript quiet' lines).state =
        { (left.runScript quiet lines).state with display := last } := by
  intro left right outcome outcome'
  have hbeside : left.Beside right := ⟨display', rfl⟩
  have hruns : RunsBeside (left.scriptDeeds quiet none 1 lines)
      (right.scriptDeeds quiet' none 1 lines) (left.runScript quiet lines)
      (right.runScript quiet' lines) := runLines_beside hbeside quiet quiet' none 1 lines
  have hstore := hruns.state.store_eq
  refine ⟨hruns.deeds, ?_, ?_, ?_, hruns.state⟩
  all_goals
    simp only [outcome, outcome', ScriptRun.outcomeFor, hruns.outcome, hstore]
    cases (left.runScript quiet lines).outcome <;> rfl

end Interpreter

end Stepwise
