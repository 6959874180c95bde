import Stepwise.Proofs.Session.InPlace
import Stepwise.Proofs.Interpreter.Containment

namespace Stepwise

/-- The fields of an interpreter, those of its session among them. -/
structure Fields extends Slots where
  display : Display
  outputDirectory : Option Files.Path
  running : Bool
  store : Files.Store

def Interpreter.fields (s : Interpreter) : Fields where
  toSlots := Workspace.slots ⟨s.registry, s.session⟩
  display := s.display
  outputDirectory := s.outputDirectory
  running := s.running
  store := s.store

/-- Why a statement fails in place. -/
inductive Trouble
  | workspace (failure : Workspace.Failure)
  | file (error : Files.FileError)

def ExecutionError.trouble : ExecutionError → Trouble
  | .step error => .workspace (.step error)
  | .file error => .file error

def Ending.trouble? : Ending → Option Trouble
  | .failed error => some error.trouble
  | _ => none

theorem Statement.text_message (statement : Statement) (said : Option String) :
    (statement.message said).map Message.text = said.toList := by
  cases said <;> rfl

/-- A program that assigns to the fields of an interpreter and may fail at any point. -/
abbrev Executing (α : Type) := ExceptT Trouble (StateM Fields) α

namespace Executing

/-- The outcome of a program, and the fields it leaves. -/
def runOn {α : Type} (program : Executing α) (o : Fields) : Except Trouble α × Fields :=
  program.run.run o

/-- A program that assigns to the registry and the session only. -/
def onSlots {α : Type} (program : InPlace α) : Executing α :=
  ExceptT.mk fun o =>
    let (outcome, slots) := program.runOn o.toSlots
    pure (outcome.mapError Trouble.workspace, { o with toSlots := slots })

def present (title : String) (t : Term) : Executing String := do
  return (← get).display.present title t

/-- What is said about the term that an operation answers with. -/
def presentAnswer : Workspace.Answer → Executing (Option String)
  | .term t => do return some (← present "    " t)
  | _ => return none

def writeDerivation (d : Derivation) : Option String → Executing String
  | none => return ""
  | some path => do
    if path.isEmpty then return ""
    let o ← get
    let output := match o.outputDirectory with
      | some directory => (Files.Path.ofString path).within directory
      | none => Files.Path.ofString path
    let store ← (d.save o.store output).mapError Trouble.file
    modify fun o => { o with store }
    return "\nDerivation written to " ++ output.text

def start (t : Term) : Executing (Option String) := do
  match (← get).current with
  | some current =>
    return some s!"Already matching on {current.renderInfix}; use 'end' to finish first"
  | none =>
    let _ ← onSlots (InPlace.start (.term t))
    return some (← present "Start matching on: " t)

def finish (path : Option String) : Executing (Option String) := do
  match (← get).current with
  | none => return some "No active matching session to end"
  | some _ =>
    let d ← onSlots InPlace.derivation
    let message ← present "Result: " d.final
    let written ← writeDerivation d path
    let _ ← onSlots InPlace.finish
    return some (message ++ written)

def execute : Statement → Executing (Option String)
  | .define name rule => do
    let _ ← onSlots (InPlace.define name rule)
    return some ("Defined rule: " ++ name)
  | .start t => start t
  | .inline rule depth => do presentAnswer (← onSlots (InPlace.step (.inline rule) depth))
  | .apply name depth => do presentAnswer (← onSlots (InPlace.step (.named name) depth))
  | .undo => do presentAnswer (← onSlots InPlace.undo)
  | .finish path => finish path
  | .quit => do
    modify fun o => { o with running := false }
    return none

/-- Executes statements one after another, up to one that fails or leaves the interpreter stopped.
What is said is collected on the way. -/
def executeEach : List Statement → List String → Fields → Option Trouble × List String × Fields
  | [], said, o => (none, said, o)
  | statement :: statements, said, o => match (execute statement).runOn o with
    | (.error trouble, o) => (some trouble, said, o)
    | (.ok message, o) =>
      if o.running then executeEach statements (said ++ message.toList) o
      else (none, said ++ message.toList, o)

variable {α β : Type} {o : Fields} {s : Interpreter}

theorem runOn_bind {program : Executing α} {rest : α → Executing β} :
    (program >>= rest).runOn o = match program.runOn o with
      | (.ok a, after) => (rest a).runOn after
      | (.error e, after) => (.error e, after) := by
  change ExceptT.bindCont rest (program.runOn o).1 (program.runOn o).2 = _
  rcases program.runOn o with ⟨_ | _, _⟩ <;> rfl

@[simp] theorem runOn_get : (get : Executing Fields).runOn o = (.ok o, o) := rfl

@[simp] theorem runOn_lift (x : Except Trouble α) : (liftM x : Executing α).runOn o = (x, o) := rfl

theorem runOn_present (title : String) (t : Term) :
    (present title t).runOn s.fields = (.ok (s.present title t), s.fields) := rfl

theorem runOn_onSlots (program : InPlace α) : (onSlots program).runOn o =
    ((program.runOn o.toSlots).1.mapError .workspace,
      { o with toSlots := (program.runOn o.toSlots).2 }) := rfl

/-- The program has the outcome, and leaves the fields of the interpreter after it; where it fails,
those of the interpreter as it was. -/
def Performs (program : Executing α) (s : Interpreter)
    (outcome : Except ExecutionError (Interpreter × α)) : Prop :=
  program.runOn s.fields = match outcome with
    | .ok (after, a) => (.ok a, after.fields)
    | .error e => (.error e.trouble, s.fields)

theorem start_performs (t : Term) : Performs (start t) s (.ok (s.startSession t)) := by
  obtain ⟨registry, session, display, outputDirectory, running, store⟩ := s
  cases session <;> rfl

theorem step_performs (ref : RuleRef) (depth : Nat) :
    Performs (do presentAnswer (← onSlots (InPlace.step ref depth))) s (s.makeStep ref depth) := by
  have hstep : (InPlace.step ref depth).runOn s.fields.toSlots = _ :=
    InPlace.step_performs (w := ⟨s.registry, s.session⟩) ref depth
  simp only [Workspace.perform] at hstep
  simp only [Performs, runOn_bind, runOn_onSlots, hstep, Interpreter.makeStep]
  cases s.session.step s.registry ref depth <;> rfl

theorem undo_performs : Performs (execute .undo) s s.undoStep := by
  have hundo : InPlace.undo.runOn s.fields.toSlots = _ :=
    InPlace.undo_performs (w := ⟨s.registry, s.session⟩)
  simp only [Workspace.perform] at hundo
  simp only [Performs, execute, runOn_bind, runOn_onSlots, hundo, Interpreter.undoStep]
  cases s.session.undo <;> rfl

theorem define_performs {name : String} (h : name.isEmpty = false) (rule : Rule) :
    Performs (execute (.define name rule)) s (s.execute (.define name rule)) := by
  simp only [Performs, execute, runOn_bind, runOn_onSlots, InPlace.runOn_define h]
  rfl

theorem runOn_writeDerivation (d : Derivation) (path : Option String) :
    (writeDerivation d path).runOn s.fields = match s.writeDerivation d path with
      | .ok (after, said) => (.ok said, after.fields)
      | .error e => (.error (.file e), s.fields) := by
  cases path with
  | none => rfl
  | some path =>
    simp only [writeDerivation, Interpreter.writeDerivation]
    cases path.isEmpty with
    | true => rfl
    | false =>
      have hstore : s.fields.store = s.store := rfl
      have hpath : (match s.fields.outputDirectory with
        | some directory => (Files.Path.ofString path).within directory
        | none => Files.Path.ofString path) = s.outputPath path := rfl
      simp only [Bool.false_eq_true, if_false, runOn_bind, runOn_get, runOn_lift, hpath, hstore]
      cases d.save s.store (s.outputPath path) <;> rfl

theorem finish_performs (path : Option String) : Performs (finish path) s (s.finish path) := by
  obtain ⟨registry, session, display, outputDirectory, running, store⟩ := s
  cases session with
  | idle => rfl
  | active initial steps current =>
    generalize hs : Interpreter.mk registry (.active initial steps current) display outputDirectory
      running store = s
    have hsession : s.session = .active initial steps current := by rw [← hs]
    have hcurrent : s.fields.current = some current := by rw [← hs]; rfl
    have hderivation : (onSlots InPlace.derivation).runOn s.fields =
        (.ok ⟨initial, steps.reverse, current⟩, s.fields) := by rw [← hs]; rfl
    simp only [Performs, finish, runOn_bind, runOn_get, hcurrent, hderivation, runOn_present,
      runOn_writeDerivation, Interpreter.finish, hsession, Session.derivation]
    cases hwrite : s.writeDerivation ⟨initial, steps.reverse, current⟩ path with
    | error e => rfl
    | ok result =>
      obtain ⟨after, written⟩ := result
      obtain ⟨store', rfl⟩ := Interpreter.store_of_writeDerivation hwrite
      subst hs
      rfl

/-- In place, a statement does what its execution does, and nothing where it fails. -/
theorem execute_performs {statement : Statement} (h : statement.NamesRule) :
    Performs (execute statement) s (s.execute statement) := by
  cases statement with
  | define name rule => exact define_performs h.2 rule
  | start t => exact start_performs t
  | inline rule depth => exact step_performs (.inline rule) depth
  | apply name depth => exact step_performs (.named name) depth
  | undo => exact undo_performs
  | finish path => exact finish_performs path
  | quit => rfl

/-- In place, statements do what their execution does, one after another. -/
theorem executeEach_eq {statements : List Statement}
    (h : ∀ statement ∈ statements, statement.NamesRule) (said : List String) :
    executeEach statements said s.fields =
      ((s.executeAll statements).ending.trouble?,
        said ++ (s.executeAll statements).messages.map Message.text,
        (s.executeAll statements).state.fields) := by
  induction statements generalizing s said with
  | nil => simp [executeEach, Interpreter.executeAll, Ending.trouble?]
  | cons statement statements ih =>
    rw [List.forall_mem_cons] at h
    have hfirst := execute_performs (s := s) h.1
    unfold Performs at hfirst
    rw [executeEach, hfirst, Interpreter.executeAll]
    cases s.execute statement with
    | error e => simp [Ending.trouble?]
    | ok result =>
      obtain ⟨after, message⟩ := result
      have hrunning : after.fields.running = after.running := rfl
      simp only [hrunning]
      cases after.running with
      | false => simp [Ending.trouble?, Statement.text_message]
      | true => simp [ih h.2, Statement.text_message]

end Executing

end Stepwise
