import Stepwise.Proofs.Interpreter.Displays
import Stepwise.Proofs.Interpreter.ScriptExecution

namespace Stepwise

namespace Event

/-- What a script can print of the event. What is said to a command is not printed. -/
def messages (e : Event) : List Message :=
  match e.deed, e.outcome with
  | .statement statement, .ok said => statement.message said
  | .statement _, .error _ | .command _, _ => []

/-- What is said at the end of a session under way. -/
def result? (e : Event) : Option String :=
  if e.before.current.isSome && e.after.current.isNone then e.outcome.toOption.join else none

/-- Whether the event is an `end` that finds no session. -/
def isIdleEnd (e : Event) : Bool :=
  match e.deed with
  | .statement statement => statement.isFinish && e.before.current.isNone
  | .command _ => false

/-- What is said to an `end` that finds no session. -/
def hint? (e : Event) : Option String :=
  if e.isIdleEnd then some "No active matching session to end" else none

variable {e : Event}

/-- Only `end` ends a session. -/
theorem Keeps.ends (h : e.Keeps) (active : e.before.current.isSome = true)
    (finished : e.after.current = none) : ∃ path, e.deed = .statement (.finish path) ∧ e.Ends path := by
  have hkept : ¬ e.Untouched := by
    rintro ⟨-, hcurrent, -⟩
    rw [← hcurrent, finished] at active
    cases active
  have hkeeps := h active
  obtain ⟨deed, before, outcome, after⟩ := e
  cases deed with
  | command c => exact absurd hkeeps hkept
  | statement statement =>
    cases statement with
    | start | define | quit => exact absurd hkeeps hkept
    | inline | apply =>
      rcases hkeeps with ⟨-, huntouched⟩ | ⟨made, -, hafter, -⟩
      · exact absurd huntouched hkept
      · rw [finished] at hafter
        cases hafter
    | undo =>
      rcases hkeeps with ⟨-, huntouched⟩ | ⟨made, -, hafter, -⟩
      · exact absurd huntouched hkept
      · rw [finished] at hafter
        cases hafter
    | finish path =>
      rcases hkeeps with ⟨-, huntouched⟩ | hends
      · exact absurd huntouched hkept
      · exact ⟨path, rfl, hends⟩

/-- The result is what is said of the final term when a session ends. -/
theorem result?_eq_some_iff (h : e.Keeps) {text : String} : e.result? = some text ↔
    ∃ path, e.deed = .statement (.finish path) ∧ e.Ends path ∧ e.outcome = .ok (some text) := by
  constructor
  · intro hresult
    rw [result?, Option.ite_none_right_eq_some, Bool.and_eq_true, Option.isNone_iff_eq_none,
      Option.join_eq_some_iff] at hresult
    obtain ⟨⟨hactive, hfinished⟩, hsaid⟩ := hresult
    obtain ⟨path, hdeed, hends⟩ := h.ends hactive hfinished
    exact ⟨path, hdeed, hends, ok_of_toOption hsaid⟩
  · rintro ⟨path, -, ⟨initial, final, written, -, hbefore, -, -, -, hafter, -⟩, houtcome⟩
    rw [result?, hbefore, hafter, houtcome]
    rfl

end Event

theorem Statement.isFinish_iff {statement : Statement} :
    statement.isFinish = true ↔ ∃ path, statement = .finish path := by
  cases statement <;> simp [isFinish]

theorem Event.isIdleEnd_iff {e : Event} : e.isIdleEnd = true ↔
    ∃ path, e.deed = .statement (.finish path) ∧ e.before.current = none := by
  obtain ⟨deed, before, outcome, after⟩ := e
  cases deed with
  | command c => simp [isIdleEnd]
  | statement statement =>
    simp [isIdleEnd, Statement.isFinish_iff]

namespace Interpreter

variable {s s' after : Interpreter} {e : Event}

theorem finish_of_idle (idle : s.session = .idle) (path : Option String) :
    s.finish path = .ok (s, some "No active matching session to end") := by
  simp only [finish, idle, Session.derivation]

theorem printedOf_message (statement : Statement) (said : Option String) :
    printedOf true (statement.message said) =
      if statement.isFinish then said.toList else [] := by
  cases said with
  | none => cases statement.isFinish <;> rfl
  | some text =>
    simp only [Statement.message, Option.map_some, Option.toList_some, printedOf]
    cases statement.isFinish <;> rfl

/-- An `end` that finds no session is answered by the hint. -/
theorem Leads.outcome_of_isIdleEnd (h : s.Leads e after) (idle : e.isIdleEnd = true) :
    ∃ path, e.deed = .statement (.finish path) ∧ e.before.current = none ∧
      e.outcome = .ok (some "No active matching session to end") := by
  obtain ⟨path, hdeed, hnone⟩ := Event.isIdleEnd_iff.mp idle
  have hidle : s.session = .idle := by
    rw [h.before_eq] at hnone
    exact idle_of_current hnone
  cases h with
  | answered | fatal => cases hdeed
  | executed readable run =>
    cases hdeed
    rw [execute, finish_of_idle hidle] at run
    cases run
    exact ⟨path, rfl, hnone, rfl⟩
  | failed readable run =>
    cases hdeed
    rw [execute, finish_of_idle hidle] at run
    cases run

/-- Where no session is over, a quiet script prints nothing but the hint. -/
theorem printedOf_of_no_result (keeps : e.Keeps) (idle : e.isIdleEnd = false)
    (result : e.result? = none) : printedOf true e.messages = [] := by
  obtain ⟨deed, before, outcome, after⟩ := e
  cases deed with
  | command c => rfl
  | statement statement =>
    cases outcome with
    | error trouble => rfl
    | ok said =>
      refine (printedOf_message statement said).trans ?_
      split
      · rename_i hfinish
        obtain ⟨path, rfl⟩ := Statement.isFinish_iff.mp hfinish
        have hactive : before.current.isSome = true := by
          rw [Option.isSome_iff_ne_none]
          intro hnone
          rw [Event.isIdleEnd_iff.mpr ⟨path, rfl, hnone⟩] at idle
          cases idle
        rcases keeps hactive with ⟨⟨trouble, hfails⟩, -⟩ | hends
        · cases hfails
        · obtain ⟨initial, final, written, -, -, -, houtcome, -⟩ := id hends
          rw [(Event.result?_eq_some_iff keeps).mpr ⟨path, rfl, hends, houtcome⟩] at result
          cases result
      · rfl

/-- Of an event, a quiet script prints the result or the hint. -/
theorem Leads.printedOf_messages (h : s.Leads e after) :
    printedOf true e.messages = (e.result?.or e.hint?).toList := by
  cases hidle : e.isIdleEnd with
  | true =>
    obtain ⟨path, hdeed, hbefore, houtcome⟩ := h.outcome_of_isIdleEnd hidle
    simp only [Event.messages, hdeed, houtcome, Event.result?, hbefore, Event.hint?, hidle]
    rfl
  | false =>
    have hhint : e.hint? = none := by simp [Event.hint?, hidle]
    rw [hhint, Option.or_none]
    cases hresult : e.result? with
    | none => exact printedOf_of_no_result h.keeps hidle hresult
    | some text =>
      obtain ⟨path, hdeed, -, houtcome⟩ := (Event.result?_eq_some_iff h.keeps).mp hresult
      simp only [Event.messages, hdeed, houtcome]
      rfl

/-- What statements say is said in their events. -/
theorem messages_executeAll {statements : List Statement}
    (readable : ∀ statement ∈ statements, statement.IsReadable) :
    (s.executeAll statements).messages =
      (Executing.deedEvents s.fields ((s.executed statements).map .statement)).flatMap
        Event.messages := by
  induction statements generalizing s with
  | nil => rfl
  | cons statement statements ih =>
    rw [List.forall_mem_cons] at readable
    have hevent := Executing.event_statement (s := s) readable.1.namesRule
    rw [executed, executeAll]
    cases h : s.execute statement with
    | error e =>
      simp only [h] at hevent
      dsimp only
      rw [List.map_cons, Executing.deedEvents, hevent]
      rfl
    | ok result =>
      obtain ⟨after, said⟩ := result
      simp only [h] at hevent
      dsimp only
      rw [List.map_cons, Executing.deedEvents, hevent, List.flatMap_cons]
      cases after.running with
      | false => exact (List.append_nil _).symm
      | true => exact congrArg (statement.message said ++ ·) (ih readable.2)

/-- What is printed at a line is said in the events of what is done there. -/
theorem printed_advance (quiet : Bool) (pending : Option OpenInput) (number : Nat)
    (line : String) : (s.advance quiet pending number line).1.printed = printedOf quiet
      ((Executing.deedEvents s.fields (s.advanceDeeds pending line)).flatMap Event.messages) := by
  have htakes := s.takes quiet pending number line
  generalize s.advance quiet pending number line = advanced, s.advanceDeeds pending line = deeds
    at htakes ⊢
  cases htakes with
  | blank | opened => rfl
  | @command c =>
    unfold advanceCommand
    cases s.command c with
    | error fatal => rfl
    | ok result =>
      dsimp only
      split <;> rfl
  | complete =>
    unfold advanceProgram programDeeds
    cases h : readProgram (joined pending line) with
    | error e => rfl
    | ok statements =>
      exact congrArg (printedOf quiet) (messages_executeAll (isReadable_of_readProgram h))

theorem printed_runLines (quiet : Bool) (pending : Option OpenInput) (number : Nat)
    (lines : List String) :
    (s.runLines quiet pending number lines).printed = printedOf quiet
      ((Executing.deedEvents s.fields (s.scriptDeeds quiet pending number lines)).flatMap
        Event.messages) := by
  induction lines generalizing s pending number with
  | nil => rfl
  | cons line lines ih =>
    have htrace := Executing.trace_advance (s := s) quiet pending number line
    rw [scriptDeeds, runLines]
    dsimp only
    rw [Executing.deedEvents_append, Executing.afterDeeds_of_trace htrace, List.flatMap_append,
      printedOf_append, ← printed_advance]
    cases (s.advance quiet pending number line).1.result with
    | some outcome =>
      dsimp only
      rw [Executing.deedEvents, List.flatMap_nil]
      exact (List.append_nil _).symm
    | none => exact congrArg _ (ih ..)

theorem Trace.printedOf_messages {events : List Event} (h : Trace s events s') :
    printedOf true (events.flatMap Event.messages) =
      events.filterMap fun e => e.result?.or e.hint? := by
  induction h with
  | done => rfl
  | @next _ _ _ e events leads rest ih =>
    rw [List.flatMap_cons, printedOf_append, leads.printedOf_messages, ih, List.filterMap_cons]
    cases e.result?.or e.hint? <;> rfl

end Interpreter

theorem Text.beginsWith_append (start rest : String) :
    Text.beginsWith (start ++ rest) start = true := by
  rw [Text.beginsWith, List.isPrefixOf_iff_prefix, String.toList_append]
  exact List.prefix_append _ _

theorem Display.exists_present (display : Display) (title : String) (t : Term) :
    ∃ rest, display.present title t = title ++ rest := by
  have hoperators : ∃ rest, Display.operators.present title t = title ++ rest := by
    unfold present
    dsimp only
    split
    · simp only [String.append_assoc]
      exact ⟨_, rfl⟩
    · exact ⟨_, rfl⟩
  cases display with
  | functors => exact ⟨_, rfl⟩
  | operators | unset => exact hoperators

/-- What is said at the end of a session begins with its title. -/
theorem Event.beginsWith_of_result {e : Event} (h : e.Keeps) {text : String}
    (result : e.result? = some text) : Text.beginsWith text "Result: " = true := by
  obtain ⟨path, -, hends, houtcome⟩ := (result?_eq_some_iff h).mp result
  obtain ⟨initial, final, written, -, -, -, hsaid, -⟩ := hends
  rw [houtcome] at hsaid
  cases hsaid
  obtain ⟨rest, hpresent⟩ := e.before.display.exists_present "Result: " final
  rw [hpresent, String.append_assoc]
  exact Text.beginsWith_append "Result: " (rest ++ written)

namespace Interpreter

/-- A quiet script prints the results of the sessions that its statements end, in their order, and
between them the hint for each `end` that finds no session. It prints the results and nothing else
exactly if no `end` does. -/
theorem printed_of_quiet (s : Interpreter) (lines : List String) :
    let events := Executing.deedEvents s.fields (s.scriptDeeds false none 1 lines)
    let printed := (s.runScript true lines).printed
    (s.runScript false lines).printed = (events.flatMap Event.messages).map Message.text ∧
      printed = events.filterMap (fun e => e.result?.or e.hint?) ∧
      (∀ e ∈ events, ∀ text, e.result? = some text ↔
        ∃ path, e.deed = .statement (.finish path) ∧ e.Ends path ∧
          e.outcome = .ok (some text)) ∧
      (∀ e ∈ events, ∀ text, e.result? = some text → Text.beginsWith text "Result: " = true) ∧
      (printed = events.filterMap Event.result? ↔ ∀ e ∈ events, e.isIdleEnd = false) := by
  intro events printed
  have htrace : s.Trace events _ := Executing.trace_script false none 1 lines
  have hleads := htrace.exists_leads
  have hkeeps (e : Event) (he : e ∈ events) : e.Keeps := by
    obtain ⟨_, _, h⟩ := hleads e he
    exact h.keeps
  have hdeeds := (runLines_beside (Beside.refl s) false true none 1 lines).deeds
  have hprinted : printed = events.filterMap fun e => e.result?.or e.hint? := by
    have hquiet : printed = _ := printed_runLines true none 1 lines
    rw [hquiet, hdeeds]
    exact htrace.printedOf_messages
  have hall : (s.runScript false lines).printed =
      (events.flatMap Event.messages).map Message.text := by
    refine (printed_runLines false none 1 lines).trans ?_
    simp [printedOf, events]
  refine ⟨hall, hprinted, fun e he text => Event.result?_eq_some_iff (hkeeps e he),
    fun e he text => Event.beginsWith_of_result (hkeeps e he), ?_⟩
  rw [hprinted]
  constructor
  · intro hresults e he
    by_contra hidle
    rw [Bool.not_eq_false] at hidle
    -- the hint would be the result of another event
    have hhint : e.result?.or e.hint? = some "No active matching session to end" := by
      obtain ⟨_, _, h⟩ := hleads e he
      obtain ⟨path, -, hbefore, -⟩ := h.outcome_of_isIdleEnd hidle
      simp [Event.result?, hbefore, Event.hint?, hidle]
    have hmem : "No active matching session to end" ∈ events.filterMap Event.result? := by
      rw [← hresults]
      exact List.mem_filterMap.mpr ⟨e, he, hhint⟩
    obtain ⟨e', he', hresult⟩ := List.mem_filterMap.mp hmem
    have hbegins := Event.beginsWith_of_result (hkeeps e' he') hresult
    revert hbegins
    decide
  · intro hidle
    apply List.filterMap_congr
    intro e he
    simp [Event.hint?, hidle e he]

/-- An `end` without a session is answered even if the script is quiet, though no session has come to
its end. -/
theorem printed_of_quiet_hint :
    let s : Interpreter := {}
    (s.runScript true ["end"]).printed = ["No active matching session to end"] ∧
      (Executing.deedEvents s.fields (s.scriptDeeds false none 1 ["end"])).filterMap
        Event.result? = [] := by
  intro s
  exact ⟨by decide +kernel, by decide +kernel⟩

end Interpreter

end Stepwise
