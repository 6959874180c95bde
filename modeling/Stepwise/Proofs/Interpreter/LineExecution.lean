import Stepwise.Proofs.Interpreter.InPlace

namespace Stepwise

namespace Interpreter

variable {s state : Interpreter} {messages : List String}

/-- Executes all of the statements, of which none may fail, and puts together what is said. It does
not matter whether the interpreter is running. -/
def executeThrough (s : Interpreter) :
    List Statement → Except ExecutionError (Interpreter × List String)
  | [] => .ok (s, [])
  | statement :: statements => do
    let (after, said) ← s.execute statement
    let (state, messages) ← after.executeThrough statements
    return (state, said.toList ++ messages)

theorem executeThrough_concat {before : List Statement} {statement : Statement}
    {after : Interpreter} {said : Option String}
    (run : s.executeThrough before = .ok (state, messages))
    (step : state.execute statement = .ok (after, said)) :
    s.executeThrough (before ++ [statement]) = .ok (after, messages ++ said.toList) := by
  induction before generalizing s messages with
  | nil =>
    cases run
    simp [executeThrough, step, bind, Except.bind, pure, Except.pure]
  | cons first before ih =>
    obtain ⟨⟨middle, message⟩, hfirst, run⟩ := ok_of_bind run
    obtain ⟨⟨state', later⟩, hrest, hk⟩ := ok_of_bind run
    cases hk
    simp [executeThrough, hfirst, ih hrest, bind, Except.bind, pure, Except.pure]

/-- A text of all messages, if there are any. -/
def reply (messages : List String) : Option String :=
  if messages.isEmpty then none else some ("\n".intercalate messages)

/-- The state and the answer after all statements of a line, after those up to the first `quit`, or
after those before the first that fails. -/
inductive Concludes (s : Interpreter) (statements : List Statement) : Response → Prop
  | finished {state : Interpreter} {messages : List String} (free : .quit ∉ statements)
      (run : s.executeThrough statements = .ok (state, messages)) :
      Concludes s statements { state, answer := .ok (reply messages) }
  | quit {before after : List Statement} {state : Interpreter} {messages : List String}
      (split : statements = before ++ .quit :: after) (free : .quit ∉ before)
      (run : s.executeThrough before = .ok (state, messages)) :
      Concludes s statements
        { state := { state with running := false }, answer := .ok (reply messages) }
  | failed {before after : List Statement} {failing : Statement} {state : Interpreter}
      {messages : List String} {error : ExecutionError}
      (split : statements = before ++ failing :: after) (free : .quit ∉ before)
      (run : s.executeThrough before = .ok (state, messages))
      (fails : state.execute failing = .error error) :
      Concludes s statements
        { state
          answer := error.report.map fun report =>
            some ("\n".intercalate (messages ++ ["Error: " ++ report])) }

/-- The answer to an execution whose messages are known. -/
theorem answerOf_eq (messages : List Message) (ending : Ending) : answerOf messages ending =
    match ending with
    | .failed error => error.report.map fun report =>
      some ("\n".intercalate (messages.map Message.text ++ ["Error: " ++ report]))
    | _ => .ok (reply (messages.map Message.text)) := by
  cases ending with
  | failed error =>
    unfold answerOf
    cases error.report <;> rfl
  | finished | stopped => simp [answerOf, reply]

/-- Induction on the statements that are left, behind those that have been executed. -/
theorem concludes_executeAll {before statements : List Statement} {said : List Message}
    (free : .quit ∉ before) (run : s.executeThrough before = .ok (state, said.map Message.text))
    (running : state.running = true) :
    Concludes s (before ++ statements)
      { state := (state.executeAll statements).state
        answer := answerOf (said ++ (state.executeAll statements).messages)
          (state.executeAll statements).ending } := by
  induction statements generalizing before state said with
  | nil =>
    simp only [executeAll, answerOf_eq, List.append_nil]
    exact .finished free run
  | cons statement statements ih =>
    rw [executeAll]
    cases hstep : state.execute statement with
    | error error =>
      simp only [answerOf_eq, List.append_nil]
      exact .failed rfl free run hstep
    | ok result =>
      obtain ⟨after, message⟩ := result
      by_cases hquit : statement = .quit
      · subst hquit
        cases hstep
        simp only [Bool.false_eq_true, if_false, answerOf_eq, List.map_append,
          Statement.text_message, Option.toList_none, List.append_nil]
        exact .quit rfl free run
      · have hrunning : after.running = true := ((kept_of_execute hstep).2 hquit).trans running
        have hfree : .quit ∉ before ++ [statement] := by simp [free, Ne.symm hquit]
        have hrun := executeThrough_concat run hstep
        rw [← statement.text_message, ← List.map_append] at hrun
        simp only [hrunning, if_true]
        rw [← List.append_assoc, List.append_cons]
        exact ih hfree hrun hrunning

theorem processLine_of_readable {line text : String} {statements : List Statement}
    (kind : Line.ofText line = .program text) (h : readProgram text = .ok statements) :
    s.processLine line =
      { state := (s.executeAll statements).state
        answer :=
          answerOf (s.executeAll statements).messages (s.executeAll statements).ending } := by
  simp only [processLine, kind, processProgram, h]

theorem concludes_of_readable {line text : String} {statements : List Statement}
    (kind : Line.ofText line = .program text) (h : readProgram text = .ok statements)
    (running : s.running = true) : s.Concludes statements (s.processLine line) := by
  have free : .quit ∉ ([] : List Statement) := List.not_mem_nil
  have run : s.executeThrough [] = .ok (s, ([] : List Message).map Message.text) := rfl
  rw [processLine_of_readable kind h]
  exact concludes_executeAll free run running

/-- A stopped interpreter stays stopped after the first statement, so that one is the last. -/
theorem concludes_of_stopped {line text : String} {statements : List Statement}
    (kind : Line.ofText line = .program text) (h : readProgram text = .ok statements)
    (stopped : s.running = false) :
    s.Concludes (statements.take 1) (s.processLine line) := by
  rw [processLine_of_readable kind h]
  cases statements with
  | nil => exact .finished List.not_mem_nil rfl
  | cons statement statements =>
    rw [executeAll, List.take_succ_cons, List.take_zero]
    cases hstep : s.execute statement with
    | error error =>
      simp only [answerOf_eq]
      exact .failed rfl List.not_mem_nil rfl hstep
    | ok result =>
      obtain ⟨after, message⟩ := result
      by_cases hquit : statement = .quit
      · subst hquit
        cases hstep
        exact .quit rfl List.not_mem_nil rfl
      · have hrunning : after.running = false := ((kept_of_execute hstep).2 hquit).trans stopped
        have hempty : s.executeThrough [] = .ok (s, []) := rfl
        have hrun := executeThrough_concat hempty hstep
        simp only [hrunning, Bool.false_eq_true, if_false, answerOf_eq, Statement.text_message]
        exact .finished (by simp [Ne.symm hquit]) hrun

/-- A line that cannot be read changes nothing and is answered with the one error. A line that can
be read comes to the execution of its statements up to the first `quit` or the first that fails, or
of the first of all if the interpreter has been stopped before; and in place, too, the statements
leave the fields of that state. -/
theorem processLine_prefix_atomic (s : Interpreter) {line text : String}
    (kind : Line.ofText line = .program text) :
    (∀ error, readProgram text = .error error → error ≠ .integerTooLarge →
      s.processLine line = { state := s, answer := .ok (some ("Error: " ++ error.message)) }) ∧
    ∀ statements, readProgram text = .ok statements →
      (s.running = true → s.Concludes statements (s.processLine line)) ∧
      (s.running = false → s.Concludes (statements.take 1) (s.processLine line)) ∧
      ∃ trouble said, Executing.executeEach statements [] s.fields =
        (trouble, said, (s.processLine line).state.fields) := by
  refine ⟨fun error h hlarge => ?_, fun statements h => ⟨concludes_of_readable kind h,
    concludes_of_stopped kind h, ?_⟩⟩
  · cases error with
    | integerTooLarge => exact absurd rfl hlarge
    | malformed | unbound =>
      simp only [processLine, kind, processProgram, h]
      rfl
  · rw [processLine_of_readable kind h]
    exact ⟨_, _, Executing.executeEach_eq (readProgram_named h) []⟩

end Interpreter

/-- A line that begins neither a comment nor a command, nor with a blank, is for its statements. -/
theorem Line.ofText_program {text : String} (trimmed : Text.trim text = text)
    (head : text.toList.head?.any (fun c => c != '#' && c != ':') = true) :
    Line.ofText text = .program text := by
  rw [Line.ofText, trimmed]
  unfold Line.ofTrimmed
  split
  · rename_i h
    rw [h] at head
    cases head
  · rename_i h
    rw [h] at head
    cases head
  · rename_i h
    rw [h] at head
    cases head
  · rfl

theorem readProgram_of_tokens {text : String} {tokens : List Token} {statements : List Statement}
    (h : (tokenize text).toOption = some tokens)
    (hread : readStatements text.length 0 tokens = .ok statements) :
    readProgram text = .ok statements := by
  rw [readProgram, tokensOf, ok_of_toOption h]
  exact hread

namespace Interpreter

/-- A derivation cannot be written where there is no directory: the session stays open, with the
step made before, and the definition behind is not made. -/
theorem processLine_prefix_atomic_unwritten :
    let line := "f(g, h); f(x, y) => f(y, x); end \"none/d\"; def a as x => x"
    let swap : Rule :=
      { pattern := .app "f" [.var "x", .var "y"], replacement := .app "f" [.var "y", .var "x"]
        closed := by decide }
    let keep : Rule :=
      { pattern := .var "x", replacement := .var "x", name := some "a", closed := by decide }
    let statements := [.start (.app "f" [.var "g", .var "h"]), .inline swap 0,
      .finish (some "none/d"), .define "a" keep]
    let s : Interpreter := {}
    Line.ofText line = .program line ∧ readProgram line = .ok statements ∧ s.running = true ∧
      s.Concludes statements (s.processLine line) := by
  intro line swap keep statements s
  let tokens : List Token := [⟨.name, "f", 0⟩, ⟨.opening, "(", 1⟩, ⟨.name, "g", 2⟩,
    ⟨.comma, ",", 3⟩, ⟨.name, "h", 5⟩, ⟨.closing, ")", 6⟩, ⟨.semicolon, ";", 7⟩, ⟨.name, "f", 9⟩,
    ⟨.opening, "(", 10⟩, ⟨.name, "x", 11⟩, ⟨.comma, ",", 12⟩, ⟨.name, "y", 14⟩,
    ⟨.closing, ")", 15⟩, ⟨.arrow, "=>", 17⟩, ⟨.name, "f", 20⟩, ⟨.opening, "(", 21⟩,
    ⟨.name, "y", 22⟩, ⟨.comma, ",", 23⟩, ⟨.name, "x", 25⟩, ⟨.closing, ")", 26⟩,
    ⟨.semicolon, ";", 27⟩, ⟨.keyword .finish, "end", 29⟩, ⟨.string, "\"none/d\"", 33⟩,
    ⟨.semicolon, ";", 41⟩, ⟨.keyword .define, "def", 43⟩, ⟨.name, "a", 47⟩,
    ⟨.keyword .naming, "as", 49⟩, ⟨.name, "x", 52⟩, ⟨.arrow, "=>", 54⟩, ⟨.name, "x", 57⟩]
  have htokens : (tokenize line).toOption = some tokens := by decide +kernel
  have hread : readStatements line.length 0 tokens = .ok statements := by rfl
  have kind : Line.ofText line = .program line :=
    Line.ofText_program (by decide +kernel) (by decide +kernel)
  have h : readProgram line = .ok statements := readProgram_of_tokens htokens hread
  exact ⟨kind, h, rfl, ((processLine_prefix_atomic s kind).2 statements h).1 rfl⟩

/-- An interpreter that has been stopped makes the first of two definitions only, though it neither
fails nor quits. -/
theorem not_concludes_stopped :
    let line := "def a as x => x; def b as y => y"
    let a : Rule :=
      { pattern := .var "x", replacement := .var "x", name := some "a", closed := by decide }
    let b : Rule :=
      { pattern := .var "y", replacement := .var "y", name := some "b", closed := by decide }
    let statements := [.define "a" a, .define "b" b]
    let s : Interpreter := { running := false }
    Line.ofText line = .program line ∧ readProgram line = .ok statements ∧
      (s.processLine line).state.registry.names = ["a"] ∧
      ¬s.Concludes statements (s.processLine line) := by
  intro line a b statements s
  let tokens : List Token := [⟨.keyword .define, "def", 0⟩, ⟨.name, "a", 4⟩,
    ⟨.keyword .naming, "as", 6⟩, ⟨.name, "x", 9⟩, ⟨.arrow, "=>", 11⟩, ⟨.name, "x", 14⟩,
    ⟨.semicolon, ";", 15⟩, ⟨.keyword .define, "def", 17⟩, ⟨.name, "b", 21⟩,
    ⟨.keyword .naming, "as", 23⟩, ⟨.name, "y", 26⟩, ⟨.arrow, "=>", 28⟩, ⟨.name, "y", 31⟩]
  have htokens : (tokenize line).toOption = some tokens := by decide +kernel
  have hread : readStatements line.length 0 tokens = .ok statements := by rfl
  have kind : Line.ofText line = .program line :=
    Line.ofText_program (by decide +kernel) (by decide +kernel)
  have h : readProgram line = .ok statements := readProgram_of_tokens htokens hread
  have hnames : (s.processLine line).state.registry.names = ["a"] := by
    rw [processLine_of_readable kind h]
    rfl
  refine ⟨kind, h, hnames, fun hconcludes => ?_⟩
  generalize s.processLine line = response at hnames hconcludes
  cases hconcludes with
  | finished free run =>
    cases run
    exact absurd hnames (by decide)
  | quit split free run =>
    have hquit : Statement.quit ∈ statements := by
      rw [split]
      simp
    simp [statements] at hquit
  | failed split free run fails =>
    rename_i failing _ _ _
    have hfailing : failing ∈ statements := by
      rw [split]
      simp
    rcases List.mem_pair.mp hfailing with rfl | rfl <;> cases fails

end Interpreter

end Stepwise
