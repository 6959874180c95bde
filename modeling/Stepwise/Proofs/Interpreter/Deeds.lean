import Stepwise.Proofs.Interpreter.InPlace

namespace Stepwise

/-- What an interpreter does at once. -/
inductive Deed
  | statement (statement : Statement)
  | command (command : Command)

namespace Executing

/-- Defines the rules of a file and counts them. -/
def loadRules (path : Files.Path) : Executing (Option String) := do
  let before := (← get).registry.size
  let _ ← onSlots (InPlace.perform (.loadFile (← get).store path))
  let total := (← get).registry.size
  return some s!"Loaded rules from {path.text} ({total - before} new, {total} total)"

/-- What is said of a load that failed, unless no message reports it. -/
def reportUnloaded (file : String) : Trouble → Executing (Option String)
  | .workspace (.file error) => match error.report with
    | .ok message => pure (some (s!"Error loading {file}: " ++ message))
    | .error _ => throw (.workspace (.file error))
  | trouble => throw trouble

/-- Loads a file in place. An error that is caught takes nothing back. -/
def loadFile (file : String) : Executing (Option String) :=
  tryCatch (loadRules (Files.Path.ofString file)) (reportUnloaded file)

def showHistory : Executing (Option String) := do
  match (← get).current with
  | none => return some "No active matching session"
  | some _ => return some (← onSlots InPlace.derivation).describe

def chooseDisplay (name : String) : Executing (Option String) := do
  if name.isEmpty then return some ("Notation: " ++ (← get).display.name)
  match Display.ofName? (Text.lowercase name) with
  | some display =>
    modify fun o => { o with display }
    return some ("Notation set to: " ++ display.name)
  | none =>
    return some ("Unknown notation. Options: " ++ ", ".intercalate (Display.all.map Display.name))

def command : Command → Executing (Option String)
  | .help => return some helpText
  | .quit => do
    modify fun o => { o with running := false }
    return none
  | .load file => if file.isEmpty then return some "Usage: :load FILENAME" else loadFile file
  | .rules => do
    let definitions := (← get).registry.definitions
    return some (if definitions.isEmpty then "No rules defined" else "\n".intercalate definitions)
  | .clear => do
    let _ ← onSlots (InPlace.perform .clear)
    return some "Cleared all rules"
  | .history => showHistory
  | .display name => chooseDisplay name
  | .unknown word => return some s!"Unknown command: {word}. Type :help for help."
  | .missing => return some "Unknown command. Type :help for help."

def perform : Deed → Executing (Option String)
  | .statement statement => execute statement
  | .command c => command c

end Executing

/-- A deed, with what it says or how it fails, and the fields before and after it. -/
structure Event where
  deed : Deed
  before : Fields
  outcome : Except Trouble (Option String)
  after : Fields

namespace Executing

def event (deed : Deed) (o : Fields) : Event :=
  let (outcome, after) := (perform deed).runOn o
  { deed, before := o, outcome, after }

/-- The events of statements, up to one that fails or leaves the interpreter stopped. -/
def statementEvents : List Statement → Fields → List Event
  | [], _ => []
  | statement :: statements, o =>
    let e := event (.statement statement) o
    e :: if e.outcome.isOk && e.after.running then statementEvents statements e.after else []

def lineEvents (line : String) (o : Fields) : List Event :=
  match Line.ofText line with
  | .blank => []
  | .command c => [event (.command c) o]
  | .program text => match readProgram text with
    | .error _ => []
    | .ok statements => statementEvents statements o

/-- The fields that the events leave. -/
def afterEvents (o : Fields) (events : List Event) : Fields := events.foldl (fun _ e => e.after) o

/-- The events of lines that are processed one after another. -/
def events : List String → Fields → List Event
  | [], _ => []
  | line :: lines, o => lineEvents line o ++ events lines (afterEvents o (lineEvents line o))

end Executing

namespace Event

/-- The fields of the session are what they were. -/
def Untouched (e : Event) : Prop :=
  e.after.initial = e.before.initial ∧ e.after.current = e.before.current ∧
    e.after.history = e.before.history

def Fails (e : Event) : Prop := ∃ trouble, e.outcome = .error trouble

/-- One step from the current term is entered behind the others. -/
def Steps (e : Event) : Prop :=
  ∃ made : Step, e.before.current = some made.before ∧ e.after.current = some made.after ∧
    e.after.history = e.before.history ++ [made] ∧ e.after.initial = e.before.initial

/-- The last step is taken out, and the term before it is the current one again. -/
def Undoes (e : Event) : Prop :=
  ∃ made : Step, e.before.history = e.after.history ++ [made] ∧
    e.after.current = some made.before ∧ e.after.initial = e.before.initial

/-- All of the derivation has been written where the path says, and the answer tells so. Without a
path there is nothing to write. -/
inductive Writes (e : Event) (d : Derivation) : Option String → String → Prop
  | nothing {path : Option String} (unnamed : path = none ∨ path = some "")
      (store : e.after.store = e.before.store) : Writes e d path ""
  | file {path : String} {output : Files.Path} (named : path ≠ "")
      (place : output = match e.before.outputDirectory with
        | some directory => (Files.Path.ofString path).within directory
        | none => Files.Path.ofString path)
      (written : e.before.store.writeText output (d.fileText output) = .ok e.after.store) :
      Writes e d (some path) ("\nDerivation written to " ++ output.text)

/-- The session is over. Its whole derivation is written if it was to be, and its final term is
shown. -/
def Ends (e : Event) (path : Option String) : Prop :=
  ∃ initial final written, e.before.initial = some initial ∧ e.before.current = some final ∧
    e.Writes { initial, steps := e.before.history, final } path written ∧
    e.outcome = .ok (some (e.before.display.present "Result: " final ++ written)) ∧
    e.after.initial = none ∧ e.after.current = none ∧ e.after.history = []

/-- What a deed may do to a session under way. Whatever fails leaves it as it was. -/
def Keeps (e : Event) : Prop :=
  e.before.current.isSome = true →
    match e.deed with
    | .statement (.inline _ _) | .statement (.apply _ _) => e.Fails ∧ e.Untouched ∨ e.Steps
    | .statement .undo => e.Fails ∧ e.Untouched ∨ e.Undoes
    | .statement (.finish path) => e.Fails ∧ e.Untouched ∨ e.Ends path
    | .statement (.start _) | .statement (.define _ _) | .statement .quit | .command _ => e.Untouched

end Event

/-- The events lead from the first fields to the last, each from where the one before it ended, and
each of them keeps what it has to. -/
inductive Proceeds : Fields → List Event → Fields → Prop
  | done (o : Fields) : Proceeds o [] o
  | next {e : Event} {events : List Event} {o : Fields} (keeps : e.Keeps)
      (rest : Proceeds e.after events o) : Proceeds e.before (e :: events) o

namespace Proceeds

variable {o o' o'' : Fields} {events later : List Event}

theorem append (h : Proceeds o events o') (h' : Proceeds o' later o'') :
    Proceeds o (events ++ later) o'' := by
  induction h with
  | done => exact h'
  | next keeps _ ih => exact .next keeps (ih h')

theorem afterEvents_eq (h : Proceeds o events o') : Executing.afterEvents o events = o' := by
  induction h with
  | done => rfl
  | next _ _ ih => exact ih

end Proceeds

namespace Executing

variable {s : Interpreter}

theorem runOn_tryCatch {α : Type} {program : Executing α} {handler : Trouble → Executing α}
    {o : Fields} : (tryCatch program handler).runOn o = match program.runOn o with
      | (.ok a, after) => (.ok a, after)
      | (.error e, after) => (handler e).runOn after := by
  have h : tryCatch program handler = ExceptT.tryCatch program handler := rfl
  rw [h]
  simp only [ExceptT.tryCatch, runOn, ExceptT.run, ExceptT.mk, StateT.run, bind, StateT.bind]
  rcases program o with ⟨_ | _, _⟩ <;> rfl

@[simp] theorem runOn_pure {α : Type} (a : α) (o : Fields) :
    (pure a : Executing α).runOn o = (.ok a, o) := rfl

@[simp] theorem runOn_throw {α : Type} (e : Trouble) (o : Fields) :
    (throw e : Executing α).runOn o = (.error e, o) := rfl

/-- The command has the answer, and leaves the fields of the interpreter after it; where it fails,
those of the interpreter as it was. -/
inductive Answers (program : Executing (Option String)) (s : Interpreter) : Answer → Prop
  | said {after : Interpreter} {said : Option String}
      (run : program.runOn s.fields = (.ok said, after.fields)) :
      Answers program s (.ok (after, said))
  | fatal {fatal : Fatal} {trouble : Trouble}
      (run : program.runOn s.fields = (.error trouble, s.fields)) :
      Answers program s (.error fatal)

theorem runOn_load (path : Files.Path) :
    (onSlots (InPlace.perform (.loadFile s.store path))).runOn s.fields = match s.load path with
      | .ok after => (.ok .done, after.fields)
      | .error error => (.error (.workspace (.file error)), s.fields) := by
  have hload := InPlace.loadFile_performs (w := ⟨s.registry, s.session⟩) s.store path
  unfold InPlace.Performs at hload
  have hslots : s.fields.toSlots = Workspace.slots ⟨s.registry, s.session⟩ := rfl
  rw [runOn_onSlots, hslots, hload]
  simp only [Workspace.perform, Interpreter.load]
  cases s.store.readRules path <;> rfl

theorem runOn_loadRules (path : Files.Path) :
    (loadRules path).runOn s.fields = match s.load path with
      | .ok after =>
        (.ok (some s!"Loaded rules from {path.text} ({after.registry.size -
          s.registry.size} new, {after.registry.size} total)"), after.fields)
      | .error error => (.error (.workspace (.file error)), s.fields) := by
  have hstore : s.fields.store = s.store := rfl
  have hsize (t : Interpreter) : t.fields.registry.size = t.registry.size := rfl
  simp only [loadRules, runOn_bind, runOn_get, hstore, runOn_load]
  cases s.load path <;> simp only [hsize, runOn_pure]

theorem loadFile_answers (file : String) : Answers (loadFile file) s (s.loadFile file) := by
  cases h : s.load (Files.Path.ofString file) with
  | ok after =>
    have hanswer : s.loadFile file = .ok (after, some
        s!"Loaded rules from {(Files.Path.ofString file).text} ({after.registry.size -
          s.registry.size} new, {after.registry.size} total)") := by
      unfold Interpreter.loadFile
      simp only [h]
      rfl
    rw [hanswer]
    refine .said (runOn_tryCatch.trans ?_)
    simp only [runOn_loadRules, h]
  | error error =>
    rw [Interpreter.loadFile_of_error h]
    cases hreport : error.report with
    | ok message =>
      refine .said (runOn_tryCatch.trans ?_)
      simp only [runOn_loadRules, h, reportUnloaded, hreport, runOn_pure]
    | error fatal =>
      have hrun : (loadFile file).runOn s.fields =
          (.error (.workspace (.file error)), s.fields) := by
        refine runOn_tryCatch.trans ?_
        simp only [runOn_loadRules, h, reportUnloaded, hreport, runOn_throw]
      exact .fatal hrun

theorem showHistory_answers : Answers showHistory s (s.say s.showHistory) := by
  obtain ⟨registry, session, display, outputDirectory, running, store⟩ := s
  cases session <;> exact .said rfl

theorem chooseDisplay_answers (name : String) :
    Answers (chooseDisplay name) s (s.chooseDisplay name) := by
  unfold chooseDisplay Interpreter.chooseDisplay
  cases name.isEmpty with
  | true => exact .said rfl
  | false =>
    simp only [Bool.false_eq_true, if_false]
    cases Display.ofName? (Text.lowercase name) <;> exact .said rfl

/-- In place, a command has the answer that it has otherwise. -/
theorem command_answers (c : Command) : Answers (command c) s (s.command c) := by
  cases c with
  | load file =>
    simp only [command, Interpreter.command]
    split
    · exact .said rfl
    · exact loadFile_answers file
  | history => exact showHistory_answers
  | display name => exact chooseDisplay_answers name
  | clear | help | quit | rules | unknown | missing => exact .said rfl

end Executing

namespace Interpreter

variable {s s' : Interpreter}

theorem session_of_loadFile {file : String} {said : Option String}
    (h : s.loadFile file = .ok (s', said)) : s'.session = s.session := by
  cases hload : s.load (Files.Path.ofString file) with
  | ok loaded =>
    obtain ⟨rules, -, hrules⟩ := ok_of_bind hload
    cases hrules
    unfold loadFile at h
    simp only [hload] at h
    cases h
    rfl
  | error error =>
    rw [loadFile_of_error hload] at h
    obtain ⟨report, -, hsaid⟩ := ok_of_map h
    cases hsaid
    rfl

/-- No command changes the session. -/
theorem session_of_command {c : Command} {said : Option String}
    (h : s.command c = .ok (s', said)) : s'.session = s.session := by
  cases c with
  | load file =>
    simp only [command] at h
    split at h
    · cases h
      rfl
    · exact session_of_loadFile h
  | display name =>
    simp only [command, chooseDisplay] at h
    split at h
    · cases h
      rfl
    · split at h <;> cases h <;> rfl
  | _ =>
    cases h
    rfl

/-- A step that is made is one of the rule that is looked up, from the current term, and it is
entered in front of the others. -/
theorem makeStep_cases {ref : RuleRef} {depth : Nat} {said : Option String}
    (h : s.makeStep ref depth = .ok (s', said)) :
    ∃ made initial steps, s.session = .active initial steps made.before ∧
      s.registry.resolve ref = .ok made.rule ∧ made.depth = depth ∧
      made.rule.reduct made.before made.depth = .ok ⟨made.after, made.paths⟩ ∧
      s' = { s with session := .active initial (made :: steps) made.after } ∧
      said = some (s.present "    " made.after) := by
  obtain ⟨⟨made, session⟩, hstep, hk⟩ := ok_of_bind_mapError h
  cases hk
  cases hs : s.session with
  | idle =>
    rw [hs] at hstep
    cases hstep
  | active initial steps current =>
    rw [hs, Session.step_active] at hstep
    split at hstep
    · cases hstep
    · rename_i rule hresolve
      split at hstep
      · cases hstep
      · rename_i r hreduct
        cases hstep
        exact ⟨_, initial, steps, rfl, hresolve, rfl, hreduct, rfl, rfl⟩

theorem undoStep_cases {said : Option String} (h : s.undoStep = .ok (s', said)) :
    ∃ made initial steps current, s.session = .active initial (made :: steps) current ∧
      s' = { s with session := .active initial steps made.before } ∧
      said = some (s.present "    " made.before) := by
  obtain ⟨⟨t, session⟩, hundo, hk⟩ := ok_of_bind_mapError h
  cases hk
  obtain ⟨initial, made, steps, current, hs, rfl, rfl⟩ := Session.shape_of_undo hundo
  exact ⟨made, initial, steps, current, hs, rfl, rfl⟩

/-- A session under way that is ended has been written first. -/
theorem finish_cases {path said : Option String} {initial current : Term} {steps : List Step}
    (hs : s.session = .active initial steps current) (h : s.finish path = .ok (s', said)) :
    ∃ written store, s.writeDerivation ⟨initial, steps.reverse, current⟩ path =
        .ok ({ s with store }, written) ∧
      s' = { s with store, session := .idle } ∧
      said = some (s.present "Result: " current ++ written) := by
  simp only [finish, hs, Session.derivation] at h
  obtain ⟨⟨after, written⟩, hwrite, hk⟩ := ok_of_bind_mapError h
  cases hk
  obtain ⟨store, rfl⟩ := store_of_writeDerivation hwrite
  exact ⟨written, store, hwrite, rfl, rfl⟩

theorem idle_of_current (h : s.fields.current = none) : s.session = .idle := by
  cases hs : s.session with
  | idle => rfl
  | active initial steps current =>
    simp only [fields, Workspace.slots, hs, Session.current?] at h
    cases h

/-- A session under way is not started anew. -/
theorem startSession_of_active {t : Term} {said : Option String} {current : Term}
    (hs : s.session.current? = some current) (h : s.startSession t = (s', said)) : s' = s := by
  simp only [startSession, hs, Prod.mk.injEq] at h
  exact h.1.symm

end Interpreter

namespace Executing

variable {s after : Interpreter}

theorem event_eq {d : Deed} {o o' : Fields} {outcome : Except Trouble (Option String)}
    (h : (perform d).runOn o = (outcome, o')) :
    event d o = { deed := d, before := o, outcome, after := o' } := by
  rw [event, h]

theorem untouched_of_session {deed : Deed} {outcome : Except Trouble (Option String)}
    (h : after.session = s.session) :
    Event.Untouched { deed, before := s.fields, outcome, after := after.fields } := by
  simp only [Event.Untouched, Interpreter.fields, Workspace.slots, h, and_self]

theorem steps_of_makeStep {deed : Deed} {ref : RuleRef} {depth : Nat} {said : Option String}
    {outcome : Except Trouble (Option String)} (h : s.makeStep ref depth = .ok (after, said)) :
    Event.Steps { deed, before := s.fields, outcome, after := after.fields } := by
  obtain ⟨made, initial, steps, hs, -, -, -, rfl, -⟩ := Interpreter.makeStep_cases h
  refine ⟨made, ?_⟩
  simp only [Interpreter.fields, Workspace.slots, hs, Session.current?, Session.history,
    Session.initial?, List.reverse_cons, and_self]

theorem undoes_of_undoStep {deed : Deed} {said : Option String}
    {outcome : Except Trouble (Option String)} (h : s.undoStep = .ok (after, said)) :
    Event.Undoes { deed, before := s.fields, outcome, after := after.fields } := by
  obtain ⟨made, initial, steps, current, hs, rfl, -⟩ := Interpreter.undoStep_cases h
  refine ⟨made, ?_⟩
  simp only [Interpreter.fields, Workspace.slots, hs, Session.current?, Session.history,
    Session.initial?, List.reverse_cons, and_self]

theorem writes_of_writeDerivation {deed : Deed} {d : Derivation} {path : Option String}
    {written : String} {store : Files.Store} {session : Session}
    {outcome : Except Trouble (Option String)}
    (h : s.writeDerivation d path = .ok ({ s with store }, written)) :
    Event.Writes { deed, before := s.fields, outcome
                   after := Interpreter.fields { s with store, session } } d path written := by
  cases path with
  | none =>
    obtain ⟨hstate, rfl⟩ := Prod.mk.inj (Except.ok.inj h)
    exact .nothing (Or.inl rfl) (congrArg Interpreter.store hstate).symm
  | some path =>
    by_cases hempty : path = ""
    · subst hempty
      obtain ⟨hstate, rfl⟩ := Prod.mk.inj (Except.ok.inj h)
      exact .nothing (Or.inr rfl) (congrArg Interpreter.store hstate).symm
    · have hnamed : path.isEmpty = false := by simpa using hempty
      simp only [Interpreter.writeDerivation, hnamed, Bool.false_eq_true, if_false] at h
      obtain ⟨store', hsave, hk⟩ := ok_of_bind h
      cases hk
      exact .file hempty rfl hsave

theorem ends_of_finish {path said : Option String} {current : Term}
    (hs : s.session.current? = some current) (h : s.finish path = .ok (after, said)) :
    Event.Ends { deed := .statement (.finish path), before := s.fields, outcome := .ok said
                 after := after.fields } path := by
  cases hsession : s.session with
  | idle =>
    rw [hsession] at hs
    cases hs
  | active initial steps final =>
    obtain ⟨written, store, hwrite, rfl, rfl⟩ := Interpreter.finish_cases hsession h
    refine ⟨initial, final, written, ?_, ?_, ?_, rfl, rfl, rfl, rfl⟩
    · simp only [Interpreter.fields, Workspace.slots, hsession, Session.initial?]
    · simp only [Interpreter.fields, Workspace.slots, hsession, Session.current?]
    · have hhistory : s.fields.history = steps.reverse := by
        simp only [Interpreter.fields, Workspace.slots, hsession, Session.history]
      rw [hhistory]
      exact writes_of_writeDerivation hwrite

end Executing

/-- What a deed can come to: the event, and the interpreter after it. A statement could be typed in
again, and what fails leaves the interpreter as it was. -/
inductive Interpreter.Leads (s : Interpreter) : Event → Interpreter → Prop
  | executed {statement : Statement} {said : Option String} {after : Interpreter}
      (readable : statement.IsReadable) (run : s.execute statement = .ok (after, said)) :
      Leads s { deed := .statement statement, before := s.fields, outcome := .ok said
                after := after.fields } after
  | failed {statement : Statement} {error : ExecutionError} (readable : statement.IsReadable)
      (run : s.execute statement = .error error) :
      Leads s { deed := .statement statement, before := s.fields, outcome := .error error.trouble
                after := s.fields } s
  | answered {c : Command} {said : Option String} {after : Interpreter}
      (run : s.command c = .ok (after, said)) :
      Leads s { deed := .command c, before := s.fields, outcome := .ok said
                after := after.fields } after
  | fatal {c : Command} {fatal : Fatal} {trouble : Trouble} (run : s.command c = .error fatal) :
      Leads s { deed := .command c, before := s.fields, outcome := .error trouble
                after := s.fields } s

namespace Interpreter.Leads

variable {s after : Interpreter} {e : Event}

theorem before_eq (h : s.Leads e after) : e.before = s.fields := by
  cases h <;> rfl

theorem after_eq (h : s.Leads e after) : e.after = after.fields := by
  cases h <;> rfl

theorem keeps (h : s.Leads e after) : e.Keeps := by
  intro hactive
  cases h with
  | answered run => exact Executing.untouched_of_session (session_of_command run)
  | fatal run => exact Executing.untouched_of_session rfl
  | @failed statement error readable run =>
    have hfails : ∀ deed, Event.Fails
        { deed, before := s.fields, outcome := .error error.trouble, after := s.fields } :=
      fun _ => ⟨_, rfl⟩
    cases statement with
    | inline | apply | undo | finish =>
      exact Or.inl ⟨hfails _, Executing.untouched_of_session rfl⟩
    | start | define | quit => exact Executing.untouched_of_session rfl
  | @executed statement said _ readable run =>
    obtain ⟨current, hcurrent⟩ := Option.isSome_iff_exists.mp hactive
    cases statement with
    | inline rule depth => exact Or.inr (Executing.steps_of_makeStep run)
    | apply name depth => exact Or.inr (Executing.steps_of_makeStep run)
    | undo => exact Or.inr (Executing.undoes_of_undoStep run)
    | finish path => exact Or.inr (Executing.ends_of_finish hcurrent run)
    | start t =>
      have hafter := startSession_of_active hcurrent (Except.ok.inj run)
      exact Executing.untouched_of_session (congrArg session hafter)
    | define | quit =>
      cases run
      exact Executing.untouched_of_session rfl

end Interpreter.Leads

/-- The events lead one after another from the first interpreter to the last. -/
inductive Interpreter.Trace : Interpreter → List Event → Interpreter → Prop
  | done (s : Interpreter) : Trace s [] s
  | next {s s' s'' : Interpreter} {e : Event} {events : List Event} (leads : s.Leads e s')
      (rest : Trace s' events s'') : Trace s (e :: events) s''

namespace Interpreter.Trace

variable {s s' s'' : Interpreter} {events later : List Event}

theorem append (h : Trace s events s') (h' : Trace s' later s'') :
    Trace s (events ++ later) s'' := by
  induction h with
  | done => exact h'
  | next leads _ ih => exact .next leads (ih h')

theorem of_append (h : Trace s (events ++ later) s'') :
    ∃ s', Trace s events s' ∧ Trace s' later s'' := by
  induction events generalizing s with
  | nil => exact ⟨s, .done s, h⟩
  | cons e events ih =>
    cases h with
    | next leads rest =>
      obtain ⟨s', hevents, hlater⟩ := ih rest
      exact ⟨s', .next leads hevents, hlater⟩

theorem exists_leads (h : Trace s events s') :
    ∀ e ∈ events, ∃ before after : Interpreter, before.Leads e after := by
  induction h with
  | done => exact List.forall_mem_nil _
  | next leads _ ih => exact List.forall_mem_cons.mpr ⟨⟨_, _, leads⟩, ih⟩

theorem leads_of_singleton {e : Event} (h : Trace s [e] s') : s.Leads e s' := by
  cases h with
  | next leads rest =>
    cases rest with
    | done => exact leads

theorem afterEvents_eq (h : Trace s events s') :
    Executing.afterEvents s.fields events = s'.fields := by
  induction h with
  | done => rfl
  | next leads _ ih =>
    rw [Executing.afterEvents, List.foldl_cons, leads.after_eq]
    exact ih

theorem proceeds (h : Trace s events s') : Proceeds s.fields events s'.fields := by
  induction h with
  | done => exact .done _
  | next leads _ ih =>
    rw [← leads.after_eq] at ih
    rw [← leads.before_eq]
    exact .next leads.keeps ih

end Interpreter.Trace

namespace Executing

variable {s : Interpreter}

/-- In its event a statement comes to what its execution comes to. -/
theorem event_statement {statement : Statement} (named : statement.NamesRule) :
    event (.statement statement) s.fields = match s.execute statement with
      | .ok (after, said) =>
        { deed := .statement statement, before := s.fields, outcome := .ok said
          after := after.fields }
      | .error error =>
        { deed := .statement statement, before := s.fields, outcome := .error error.trouble
          after := s.fields } := by
  have hperforms := execute_performs (s := s) named
  unfold Performs at hperforms
  rw [event_eq (d := .statement statement) hperforms]
  cases s.execute statement <;> rfl

theorem leads_statement {statement : Statement} (readable : statement.IsReadable) :
    s.Leads (event (.statement statement) s.fields) (match s.execute statement with
      | .ok (after, _) => after
      | .error _ => s) := by
  rw [event_statement readable.namesRule]
  cases h : s.execute statement with
  | error e => exact .failed readable h
  | ok result => exact .executed readable h

theorem leads_command (c : Command) :
    s.Leads (event (.command c) s.fields) (match s.command c with
      | .ok (after, _) => after
      | .error _ => s) := by
  have hanswers := command_answers (s := s) c
  generalize h : s.command c = answer at hanswers
  cases hanswers with
  | fatal hrun =>
    rw [event_eq (d := .command c) hrun]
    exact .fatal h
  | said hrun =>
    rw [event_eq (d := .command c) hrun]
    exact .answered h

/-- The events of statements lead to the state after their execution. -/
theorem trace_statements {statements : List Statement}
    (readable : ∀ statement ∈ statements, statement.IsReadable) :
    s.Trace (statementEvents statements s.fields) (s.executeAll statements).state := by
  induction statements generalizing s with
  | nil => exact .done _
  | cons statement statements ih =>
    rw [List.forall_mem_cons] at readable
    rw [statementEvents, Interpreter.executeAll, event_statement readable.1.namesRule]
    cases h : s.execute statement with
    | error e => exact .next (.failed readable.1 h) (.done _)
    | ok result =>
      obtain ⟨after, said⟩ := result
      have hleads := Interpreter.Leads.executed readable.1 h
      have hrunning : after.fields.running = after.running := rfl
      simp only [Except.isOk, Except.toBool, Bool.true_and, hrunning]
      cases after.running with
      | false => exact .next hleads (.done _)
      | true => exact .next hleads (ih readable.2)

theorem trace_line (line : String) :
    s.Trace (lineEvents line s.fields) (s.processLine line).state := by
  unfold lineEvents Interpreter.processLine
  cases Line.ofText line with
  | blank => exact .done _
  | command c =>
    have hleads := leads_command (s := s) c
    dsimp only
    cases h : s.command c with
    | error fatal =>
      simp only [h] at hleads
      exact .next hleads (.done _)
    | ok result =>
      simp only [h] at hleads
      exact .next hleads (.done _)
  | program text =>
    dsimp only [Interpreter.processProgram]
    cases h : readProgram text with
    | error e => exact .done _
    | ok statements => exact trace_statements (isReadable_of_readProgram h)

theorem proceeds_line (line : String) :
    Proceeds s.fields (lineEvents line s.fields) (s.processLine line).state.fields :=
  (trace_line line).proceeds

end Executing

/-- The state after lines that are processed one after another. -/
def Interpreter.processLines (s : Interpreter) (lines : List String) : Interpreter :=
  lines.foldl (fun s line => (s.processLine line).state) s

theorem Executing.trace_events (s : Interpreter) (lines : List String) :
    s.Trace (events lines s.fields) (s.processLines lines) := by
  induction lines generalizing s with
  | nil => exact .done _
  | cons line lines ih =>
    have hline := trace_line (s := s) line
    rw [events, hline.afterEvents_eq]
    exact hline.append (ih _)

/-- Whatever lines are processed from whatever state on, each of the statements and commands in them
starts where the one before it ended, the last leaves the state after the lines, and none of them
takes more from a session under way than it has to. -/
theorem Executing.proceeds_events (s : Interpreter) (lines : List String) :
    Proceeds s.fields (events lines s.fields) (s.processLines lines).fields := by
  induction lines generalizing s with
  | nil => exact .done _
  | cons line lines ih =>
    have hline := proceeds_line (s := s) line
    rw [events, hline.afterEvents_eq]
    exact hline.append (ih _)

end Stepwise
