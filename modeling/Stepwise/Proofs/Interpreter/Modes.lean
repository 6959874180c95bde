import Stepwise.Interpreter.Console
import Stepwise.Proofs.Interpreter.LineExecution
import Stepwise.Proofs.Interpreter.LineKinds
import Stepwise.Proofs.Interpreter.ScriptDeeds

namespace Stepwise

/-- Whether a script has not failed. -/
def ScriptOutcome.isFinished : ScriptOutcome → Bool
  | .finished => true
  | _ => false

theorem ScriptOutcome.eq_finished {outcome : ScriptOutcome} (h : outcome.isFinished = true) :
    outcome = .finished := by
  cases outcome with
  | finished => rfl
  | failed | fatal => cases h

def Line.isCommand : Line → Bool
  | .command _ => true
  | _ => false

namespace Interpreter

/-- What is done for a line that is processed. -/
def lineDeeds (s : Interpreter) (line : String) : List Deed :=
  match Line.ofText line with
  | .blank => []
  | .command c => [.command c]
  | .program text => s.programDeeds text

end Interpreter

namespace Console

/-- The input that is not complete with a further line. -/
def joined (c : Console) (line : String) : String :=
  if c.pending.isEmpty then line else c.pending ++ "\n" ++ line

/-- What the console does at a key: nothing, until an input is complete. -/
def keyDeeds (c : Console) : Key → List Deed
  | .line line =>
    if openParentheses (c.joined line) = 0 then c.interpreter.lineDeeds (c.joined line) else []
  | .interrupt => []

/-- What the console does at one key after another, until it is over. -/
def deeds (c : Console) : List Key → List Deed
  | [] => []
  | key :: keys =>
    if c.interpreter.running then
      c.keyDeeds key ++
        if (c.react key).fatal.isSome then [] else (c.react key).console.deeds keys
    else []

end Console

namespace Interpreter

variable {s : Interpreter} {quiet : Bool} {statements : List Statement}

/-- Statements that do not fail come to their end if they leave the interpreter running, and stop
where they leave it stopped. -/
theorem running_executeAll (running : s.running = true) (statements : List Statement) :
    (∃ error, (s.executeAll statements).ending = .failed error) ∨
      (s.executeAll statements).ending = .finished ∧
        (s.executeAll statements).state.running = true ∨
      (s.executeAll statements).ending = .stopped ∧
        (s.executeAll statements).state.running = false := by
  induction statements generalizing s with
  | nil => exact Or.inr (Or.inl ⟨rfl, running⟩)
  | cons statement statements ih =>
    rw [executeAll]
    cases s.execute statement with
    | error e => exact Or.inl ⟨e, rfl⟩
    | ok result =>
      obtain ⟨after, said⟩ := result
      by_cases hafter : after.running = true
      · simp only [hafter, if_true]
        exact ih hafter
      · simp only [hafter]
        exact Or.inr (Or.inr ⟨rfl, Bool.eq_false_iff.mpr hafter⟩)

/-- A text is read as it is without the blanks at its ends. -/
theorem readProgram_trim {text : String} (h : readProgram text = .ok statements) :
    readProgram (Text.trim text) = .ok statements :=
  ((readProgram_agrees (bareTokens?_trim text)).ok_iff statements).mpr h

end Interpreter

namespace Console

variable {c : Console} {line : String}

/-- The console goes on after a line with what is open. -/
theorem react_open (goes : 0 < openParentheses (c.joined line)) :
    c.react (.line line) = { printed := "", console := { c with pending := c.joined line } } :=
  if_pos goes

/-- An input that is complete is processed. -/
theorem react_closed (closed : openParentheses (c.joined line) = 0) :
    (c.react (.line line)).console =
        { interpreter := (c.interpreter.processLine (c.joined line)).state } ∧
      (c.react (.line line)).fatal.isSome =
        !(c.interpreter.processLine (c.joined line)).answer.isOk := by
  have hreact : c.react (.line line) = c.enter line := rfl
  rw [hreact, enter, ← joined]
  simp only [closed, Int.lt_irrefl, if_false]
  cases (c.interpreter.processLine (c.joined line)).answer with
  | error fatal => exact ⟨rfl, rfl⟩
  | ok said => cases said <;> exact ⟨rfl, rfl⟩

/-- An input that is not complete changes nothing, and neither does one that never will be. -/
theorem react_unclosed (unclosed : openParentheses (c.joined line) ≠ 0) :
    (c.react (.line line)).console.interpreter = c.interpreter := by
  by_cases hpositive : 0 < openParentheses (c.joined line)
  · rw [react_open hpositive]
  · have hnegative : openParentheses (c.joined line) < 0 := by omega
    have hreact : c.react (.line line) = c.enter line := rfl
    rw [hreact, enter, ← joined]
    simp only [hpositive, hnegative, if_true, if_false]

/-- What becomes of the rest of the keys after one that is no fatal error. -/
theorem run_cons {key : Key} (keys : List Key) (running : c.interpreter.running = true)
    (unfatal : (c.react key).fatal = none) :
    (c.run (key :: keys)).2 = ((c.react key).console.run keys).2 ∧
      c.deeds (key :: keys) = c.keyDeeds key ++ (c.react key).console.deeds keys := by
  rw [run, deeds]
  simp [running, unfatal]

theorem run_of_stopped (keys : List Key) (stopped : c.interpreter.running = false) :
    (c.run keys).2 = { printed := "", console := c } ∧ c.deeds keys = [] := by
  cases keys <;> simp [run, deeds, stopped]

end Console

namespace Executing

theorem afterDeeds_line (s : Interpreter) (line : String) :
    afterDeeds s.fields (s.lineDeeds line) = (s.processLine line).state.fields := by
  apply afterDeeds_of_trace
  unfold Interpreter.lineDeeds Interpreter.processLine
  cases Line.ofText line with
  | blank => exact .done _
  | command c =>
    have hcommand := trace_command (s := s) c
    dsimp only
    cases h : s.command c with
    | error fatal =>
      simp only [h] at hcommand
      exact hcommand
    | ok result =>
      simp only [h] at hcommand
      exact hcommand
  | program text =>
    dsimp only [Interpreter.programDeeds, Interpreter.processProgram]
    cases h : readProgram text with
    | error e => exact .done _
    | ok statements => exact trace_executed (isReadable_of_readProgram h)

theorem afterDeeds_key (c : Console) (key : Key) :
    afterDeeds c.interpreter.fields (c.keyDeeds key) =
      (c.react key).console.interpreter.fields := by
  cases key with
  | interrupt => rfl
  | line line =>
    by_cases hclosed : openParentheses (c.joined line) = 0
    · rw [Console.keyDeeds, if_pos hclosed, (Console.react_closed hclosed).1, afterDeeds_line]
    · rw [Console.keyDeeds, if_neg hclosed, Console.react_unclosed hclosed]
      rfl

/-- What the console does makes all of the state that it ends in. -/
theorem afterDeeds_console (c : Console) (keys : List Key) :
    afterDeeds c.interpreter.fields (c.deeds keys) =
      (c.run keys).2.console.interpreter.fields := by
  induction keys generalizing c with
  | nil =>
    rw [Console.run]
    split <;> rfl
  | cons key keys ih =>
    rw [Console.deeds, Console.run]
    by_cases hrunning : c.interpreter.running = true
    · by_cases hfatal : (c.react key).fatal.isSome = true
      · simp only [hrunning, hfatal, if_true, List.append_nil, afterDeeds_key]
      · simp only [hrunning, hfatal, if_true, afterDeeds_append, afterDeeds_key]
        exact ih (c.react key).console
    · simp only [hrunning]
      rfl

end Executing

namespace Interpreter

variable {s : Interpreter} {quiet : Bool} {pending : Option OpenInput} {number : Nat}
  {line : String}

/-- The console with the input that is open. -/
def console (s : Interpreter) (pending : Option OpenInput) : Console :=
  { interpreter := s, pending := (pending.map OpenInput.text).getD "" }

/-- What is open has a parenthesis open, and begins neither a comment nor a command. -/
def IsOpen (pending : Option OpenInput) : Prop :=
  ∀ input ∈ pending, 0 < openParentheses input.text ∧
    Line.ofText input.text = .program (Text.trim input.text)

theorem isOpen_none : IsOpen none := by
  intro input hinput
  cases hinput

theorem joined_console (s : Interpreter) (h : IsOpen pending) (line : String) :
    (s.console pending).joined line = joined pending line := by
  cases pending with
  | none => rfl
  | some input =>
    have hopen := (h input rfl).1
    have hempty : input.text.isEmpty = false := by
      rw [Bool.eq_false_iff]
      intro htext
      rw [String.isEmpty_iff] at htext
      rw [htext] at hopen
      exact absurd hopen (by decide)
    simp [console, Console.joined, joined, hempty]

theorem ofText_joined (h : IsOpen pending)
    (kind : pending.isSome = true ∨ ∃ text, Line.ofText line = .program text) :
    Line.ofText (joined pending line) = .program (Text.trim (joined pending line)) := by
  cases pending with
  | none =>
    rcases kind with hsome | ⟨text, htext⟩
    · cases hsome
    · rw [← String.append_empty (s := joined none line)]
      exact Line.ofText_append htext ""
  | some input =>
    have hkind := Line.ofText_append (h input rfl).2 ("\n" ++ line)
    rwa [← String.append_assoc] at hkind

theorem processLine_of_program {text : String} {statements : List Statement}
    (kind : Line.ofText text = .program (Text.trim text)) (h : readProgram text = .ok statements) :
    s.processLine text = { state := (s.executeAll statements).state
                           answer := answerOf (s.executeAll statements).messages
                             (s.executeAll statements).ending } :=
  processLine_of_readable kind (readProgram_trim h)

/-- On the lines the console does what is to be done and ends in the state, with nothing open. -/
structure Follows (c : Console) (lines : List String) (deeds : List Deed) (state : Interpreter) :
    Prop where
  deeds : c.deeds (lines.map .line) = deeds
  console : (c.run (lines.map .line)).2.console = state.console none
  fatal : (c.run (lines.map .line)).2.fatal = none

theorem Follows.cons {c : Console} {lines : List String} {done later : List Deed}
    {state : Interpreter} (running : c.interpreter.running = true)
    (unfatal : (c.react (.line line)).fatal = none) (same : c.keyDeeds (.line line) = done)
    (rest : Follows (c.react (.line line)).console lines later state) :
    Follows c (line :: lines) (done ++ later) state := by
  obtain ⟨hrun, hdeeds⟩ := Console.run_cons (lines.map .line) running unfatal
  constructor
  · rw [List.map_cons, hdeeds, same, rest.deeds]
  · rw [List.map_cons, hrun, rest.console]
  · rw [List.map_cons, hrun, rest.fatal]

theorem Follows.over (lines : List String) (stopped : s.running = false) :
    Follows (s.console none) lines [] s := by
  have hstopped : (s.console none).interpreter.running = false := stopped
  obtain ⟨hrun, hdeeds⟩ := Console.run_of_stopped (lines.map .line) hstopped
  exact ⟨hdeeds, by rw [hrun], by rw [hrun]⟩

theorem Follows.done (running : s.running = true) : Follows (s.console none) [] [] s := by
  have hrunning : (s.console none).interpreter.running = true := running
  constructor
  · rfl
  · simp only [List.map_nil, Console.run, hrunning, if_true]
  · simp only [List.map_nil, Console.run, hrunning, if_true]

/-- A line that completes an input. The console goes on behind it if the interpreter is running. -/
theorem Follows.complete {lines : List String} {later : List Deed} {after state : Interpreter}
    {said : Option String} (running : s.running = true) (isOpen : IsOpen pending)
    (closed : openParentheses (joined pending line) = 0)
    (process : s.processLine (joined pending line) = { state := after, answer := .ok said })
    (runs : after.running = true → Follows (after.console none) lines later state)
    (stops : after.running = false → later = [] ∧ state = after) :
    Follows (s.console pending) (line :: lines)
      (s.lineDeeds (joined pending line) ++ later) state := by
  rw [← joined_console s isOpen line] at closed process ⊢
  obtain ⟨hconsole, hfatal⟩ := Console.react_closed closed
  have hafter : (s.console pending).interpreter.processLine ((s.console pending).joined line) =
      { state := after, answer := .ok said } := process
  rw [hafter] at hconsole hfatal
  have unfatal := Option.isNone_iff_eq_none.mp (Option.isSome_eq_false_iff.mp hfatal)
  refine .cons running unfatal (if_pos closed) ?_
  rw [hconsole]
  cases hrunning : after.running with
  | true => exact runs hrunning
  | false =>
    obtain ⟨rfl, rfl⟩ := stops hrunning
    exact .over lines hrunning

theorem Follows.blank {lines : List String} {later : List Deed} {state : Interpreter}
    (running : s.running = true) (kind : Line.ofText line = .blank) (single : '\n' ∉ line.toList)
    (rest : Follows (s.console none) lines later state) :
    Follows (s.console none) (line :: lines) later state := by
  have hprocess : s.processLine (joined none line) = { state := s, answer := .ok none } := by
    rw [processLine, joined, kind]
  have hdeeds : s.lineDeeds (joined none line) = [] := by rw [lineDeeds, joined, kind]
  have hcomplete : Follows (s.console none) (line :: lines)
      (s.lineDeeds (joined none line) ++ later) state := by
    refine .complete running isOpen_none (openParentheses_of_blank kind single) hprocess
      (fun _ => rest) (fun stopped => ?_)
    rw [running] at stopped
    cases stopped
  rwa [hdeeds] at hcomplete

theorem Follows.command {lines : List String} {later : List Deed} {after state : Interpreter}
    {said : Option String} {c : Command} (running : s.running = true)
    (kind : Line.ofText line = .command c) (counted : openParentheses line = 0)
    (answer : s.command c = .ok (after, said))
    (runs : after.running = true → Follows (after.console none) lines later state)
    (stops : after.running = false → later = [] ∧ state = after) :
    Follows (s.console none) (line :: lines) (.command c :: later) state := by
  have hprocess : s.processLine (joined none line) = { state := after, answer := .ok said } := by
    rw [processLine, joined, kind]
    simp only [answer]
  have hdeeds : s.lineDeeds (joined none line) = [.command c] := by rw [lineDeeds, joined, kind]
  have hcomplete := Follows.complete running isOpen_none counted hprocess runs stops
  rwa [hdeeds] at hcomplete

theorem Follows.opened {lines : List String} {later : List Deed} {state : Interpreter}
    {input : OpenInput} (running : s.running = true) (isOpen : IsOpen pending)
    (text : input.text = joined pending line) (goes : 0 < openParentheses input.text)
    (rest : Follows (s.console (some input)) lines later state) :
    Follows (s.console pending) (line :: lines) later state := by
  have hjoined : (s.console pending).joined line = input.text := by
    rw [joined_console s isOpen line, text]
  have hreact : (s.console pending).react (.line line) =
      { printed := "", console := s.console (some input) } := by
    rw [Console.react_open (by rwa [hjoined]), hjoined]
    rfl
  have hdeeds : (s.console pending).keyDeeds (.line line) = [] := by
    apply if_neg
    rw [hjoined]
    exact Int.ne_of_gt goes
  apply Follows.cons running _ hdeeds
  · rw [hreact]
    exact rest
  · rw [hreact]

theorem failureOf_ne_finished (line : Nat) (report : Except Fatal String) :
    failureOf line report ≠ .finished := by
  cases report <;> simp [failureOf]

/-- A command after which a script goes on, or is over without a failure, has an answer. -/
theorem command_of_finished {c : Command}
    (succeeds : ∀ outcome, (s.advanceCommand number c).result = some outcome →
      outcome = .finished) :
    ∃ after said, s.command c = .ok (after, said) ∧ s.advanceCommand number c =
      { state := after, result := if after.running then none else some .finished } := by
  unfold advanceCommand at succeeds ⊢
  cases h : s.command c with
  | error fatal =>
    rw [h] at succeeds
    cases succeeds _ rfl
  | ok result =>
    obtain ⟨after, said⟩ := result
    rw [h] at succeeds
    dsimp only at succeeds ⊢
    cases hsaid : said.filter isComplaint with
    | some message =>
      rw [hsaid] at succeeds
      cases succeeds _ rfl
    | none => exact ⟨after, said, rfl, rfl⟩

/-- A text after which a script goes on, or is over without a failure, is read, and a line of it has
an answer. -/
theorem program_of_finished {text : String} {first : Nat} (running : s.running = true)
    (kind : Line.ofText text = .program (Text.trim text))
    (succeeds : ∀ outcome, (s.advanceProgram quiet first text).result = some outcome →
      outcome = .finished) :
    ∃ statements, readProgram text = .ok statements ∧ s.advanceProgram quiet first text =
        { state := (s.executeAll statements).state
          printed := printedOf quiet (s.executeAll statements).messages
          result := if (s.executeAll statements).state.running then none else some .finished } ∧
      ∃ said, s.processLine text =
        { state := (s.executeAll statements).state, answer := .ok said } := by
  unfold advanceProgram at succeeds ⊢
  cases h : readProgram text with
  | error e =>
    rw [h] at succeeds
    exact absurd (succeeds _ rfl) (failureOf_ne_finished first e.report)
  | ok statements =>
    rw [h] at succeeds
    dsimp only at succeeds ⊢
    rw [processLine_of_program kind h]
    refine ⟨statements, rfl, ?_⟩
    rcases running_executeAll running statements with
      ⟨error, hending⟩ | ⟨hending, hrunning⟩ | ⟨hending, hstopped⟩
    · rw [hending] at succeeds
      exact absurd (succeeds _ rfl) (failureOf_ne_finished first error.report)
    · simp [hending, hrunning, answerOf]
    · simp [hending, hstopped, answerOf]

/-- Induction on the lines, with the same input open in both. -/
theorem follows_of_finished {lines : List String} (running : s.running = true)
    (isOpen : IsOpen pending) (single : ∀ line ∈ lines, '\n' ∉ line.toList)
    (counted : ∀ line ∈ lines, ∀ c, Line.ofText line = .command c → openParentheses line = 0)
    (finished : (s.runLines quiet pending number lines).outcome = .finished) :
    Follows (s.console pending) lines (s.scriptDeeds quiet pending number lines)
      (s.runLines quiet pending number lines).state := by
  induction lines generalizing s pending number with
  | nil =>
    cases pending with
    | some input => cases finished
    | none => exact .done running
  | cons line lines ih =>
    rw [List.forall_mem_cons] at single counted
    have htakes := s.takes quiet pending number line
    rw [runLines] at finished
    rw [runLines, scriptDeeds]
    generalize s.advance quiet pending number line = advanced, s.advanceDeeds pending line = deeds
      at htakes finished ⊢
    cases htakes with
    | blank free kind =>
      subst free
      exact .blank running kind single.1 (ih running isOpen_none single.2 counted.2 finished)
    | @command c free kind =>
      subst free
      have hsucceeds : ∀ outcome, (s.advanceCommand number c).result = some outcome →
          outcome = .finished := by
        intro outcome hresult
        simpa only [hresult] using finished
      obtain ⟨after, said, hcommand, hadvance⟩ := command_of_finished hsucceeds
      refine .command running kind (counted.1 c kind) hcommand (fun hrunning => ?_)
        (fun hstopped => ?_)
      · simp only [hadvance, hrunning, if_true] at finished ⊢
        exact ih hrunning isOpen_none single.2 counted.2 finished
      · simp [hadvance, hstopped]
    | @opened input text kind goes =>
      have hkind := ofText_joined isOpen kind
      rw [← text] at goes hkind
      have hnext : IsOpen (some input) := by
        rintro _ ⟨⟩
        exact ⟨goes, hkind⟩
      exact .opened running isOpen text goes (ih running hnext single.2 counted.2 finished)
    | @complete first kind closed =>
      have hsucceeds : ∀ outcome,
          (s.advanceProgram quiet first (joined pending line)).result = some outcome →
            outcome = .finished := by
        intro outcome hresult
        simpa only [hresult] using finished
      obtain ⟨statements, hread, hadvance, said, hprocess⟩ :=
        program_of_finished running (ofText_joined isOpen kind) hsucceeds
      have hdeeds : s.lineDeeds (joined pending line) = s.programDeeds (joined pending line) := by
        simp only [lineDeeds, ofText_joined isOpen kind, programDeeds, hread,
          readProgram_trim hread]
      rw [← hdeeds]
      refine .complete running isOpen (openParentheses_of_readProgram hread) hprocess
        (fun hrunning => ?_) (fun hstopped => ?_)
      · simp only [hadvance, hrunning, if_true] at finished ⊢
        exact ih hrunning isOpen_none single.2 counted.2 finished
      · simp [hadvance, hstopped]

/-- What a script that does not fail does for its lines, the console does when they are typed, and
it ends in the same state: the same rules, session, display and flag, with no input left open. What
is done makes all of the state, in the console as in the script. Lines are single lines here, and a
command leaves no parenthesis open. -/
theorem console_of_script (s : Interpreter) (quiet : Bool) {lines : List String}
    (running : s.running = true) (single : ∀ line ∈ lines, '\n' ∉ line.toList)
    (counted : ∀ line ∈ lines, ∀ c, Line.ofText line = .command c → openParentheses line = 0)
    (finished : (s.runScript quiet lines).outcome = .finished) :
    let console : Console := { interpreter := s }
    let keys := lines.map Key.line
    console.deeds keys = s.scriptDeeds quiet none 1 lines ∧
      (console.run keys).2.console = { interpreter := (s.runScript quiet lines).state } ∧
      (console.run keys).2.fatal = none ∧
      Executing.afterDeeds s.fields (console.deeds keys) =
        (console.run keys).2.console.interpreter.fields ∧
      Executing.afterDeeds s.fields (s.scriptDeeds quiet none 1 lines) =
        (s.runScript quiet lines).state.fields := by
  intro console keys
  obtain ⟨hdeeds, hconsole, hfatal⟩ :=
    follows_of_finished running isOpen_none single counted finished
  exact ⟨hdeeds, hconsole, hfatal, Executing.afterDeeds_console console keys,
    Executing.afterDeeds_script quiet none 1 lines⟩

/-- Two lines of a statement, a parenthesis in a comment, a command and a line behind `quit`. -/
theorem console_of_script_lines :
    let s : Interpreter := {}
    let lines := [":notation functor", "f(a, # (", "  b)", "quit", "nope at 0"]
    let console : Console := { interpreter := s }
    let keys := lines.map Key.line
    console.deeds keys = s.scriptDeeds false none 1 lines ∧
      (console.run keys).2.console = { interpreter := (s.runScript false lines).state } ∧
      (console.run keys).2.fatal = none ∧
      Executing.afterDeeds s.fields (console.deeds keys) =
        (console.run keys).2.console.interpreter.fields ∧
      Executing.afterDeeds s.fields (s.scriptDeeds false none 1 lines) =
        (s.runScript false lines).state.fields := by
  intro s lines console keys
  have finished : (s.runScript false lines).outcome = .finished :=
    ScriptOutcome.eq_finished (by decide +kernel)
  have hsingle : lines.all (fun line => !line.toList.contains '\n') = true := by decide +kernel
  have hcounted : lines.all (fun line =>
      !(Line.ofText line).isCommand || openParentheses line == 0) = true := by decide +kernel
  rw [List.all_eq_true] at hsingle hcounted
  have single : ∀ line ∈ lines, '\n' ∉ line.toList := by simpa using hsingle
  have counted : ∀ line ∈ lines, ∀ c, Line.ofText line = .command c → openParentheses line = 0 := by
    intro line hline c hc
    have hline := hcounted line hline
    rw [hc] at hline
    simpa [Line.isCommand] using hline
  exact console_of_script s false rfl single counted finished

/-- Behind a command with an open parenthesis the console waits for its end, and nothing more is
done. -/
theorem console_of_open_command :
    let s : Interpreter := {}
    let lines := [":rules (", "def a as x => x"]
    (s.runScript false lines).outcome = .finished ∧
      (s.runScript false lines).state.registry.names = ["a"] ∧
      (({ interpreter := s } : Console).run
        (lines.map Key.line)).2.console.interpreter.registry.names = [] :=
  ⟨ScriptOutcome.eq_finished (by decide +kernel), by decide +kernel, by decide +kernel⟩

end Interpreter

end Stepwise
