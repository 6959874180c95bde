import Stepwise.Proofs.Interpreter.Containment

namespace Stepwise

/-- The input with a further line. -/
def OpenInput.extend (input : OpenInput) (line : String) : OpenInput :=
  { input with text := input.text ++ "\n" ++ line }

namespace Interpreter

/-- What a script does with an input: it waits for more lines or executes it. -/
def collect (s : Interpreter) (quiet : Bool) (input : OpenInput) : Advance × Option OpenInput :=
  if 0 < openParentheses input.text then ({ state := s }, some input)
  else (s.advanceProgram quiet input.line input.text, none)

/-- What becomes of a script after lines that it has taken in. -/
def resume (quiet : Bool) (taken : Advance × Option OpenInput) (number : Nat)
    (lines : List String) : ScriptRun :=
  match taken.1.result with
  | some outcome => { state := taken.1.state, printed := taken.1.printed, outcome }
  | none =>
    let rest := taken.1.state.runLines quiet taken.2 number lines
    { rest with printed := taken.1.printed ++ rest.printed }

/-- Takes in one line after another, until the script is over. -/
def advanceAll (s : Interpreter) (quiet : Bool) (pending : Option OpenInput) (number : Nat) :
    List String → Advance × Option OpenInput
  | [] => ({ state := s }, pending)
  | line :: lines =>
    let (step, next) := s.advance quiet pending number line
    match step.result with
    | some _ => (step, next)
    | none =>
      let (rest, last) := step.state.advanceAll quiet next (number + 1) lines
      ({ rest with printed := step.printed ++ rest.printed }, last)

section Faults

variable (s : Interpreter)

/-- The text cannot be read, or one of its statements cannot be executed. -/
inductive ProgramFault (text : String) : String → Prop
  | unread {error : ReadError} {report : String} (read : readProgram text = .error error)
      (reported : error.report = .ok report) : ProgramFault text ("Error: " ++ report)
  | unexecuted {statements : List Statement} {error : ExecutionError} {report : String}
      (read : readProgram text = .ok statements)
      (ending : (s.executeAll statements).ending = .failed error)
      (reported : error.report = .ok report) : ProgramFault text ("Error: " ++ report)

/-- The input that begins with the text fails: as far as it goes on over the lines until all
parentheses are closed, or because they never are. -/
inductive InputFault : String → List String → String → Prop
  | complete {text message : String} {lines : List String} (closed : ¬0 < openParentheses text)
      (fault : s.ProgramFault text message) : InputFault text lines message
  | next {text line message : String} {lines : List String} (goes : 0 < openParentheses text)
      (fault : InputFault (text ++ "\n" ++ line) lines message) :
      InputFault text (line :: lines) message
  | unclosed {text : String} (goes : 0 < openParentheses text) :
      InputFault text [] "Error: Unbalanced parentheses"

/-- The first of the lines is a command that is answered with a complaint, or begins an input that
fails. -/
inductive Fault : List String → String → Prop
  | command {line message : String} {lines : List String} {c : Command} {after : Interpreter}
      (kind : Line.ofText line = .command c) (answer : s.command c = .ok (after, some message))
      (complaint : isComplaint message = true) : Fault (line :: lines) message
  | input {line text message : String} {lines : List String}
      (kind : Line.ofText line = .program text) (fault : s.InputFault line lines message) :
      Fault (line :: lines) message

end Faults

variable {s : Interpreter} {quiet : Bool} {pending : Option OpenInput} {input : OpenInput}
  {number first : Nat} {line message : String} {lines : List String}

section Taking

theorem advance_some (s : Interpreter) (quiet : Bool) (input : OpenInput) (number : Nat)
    (line : String) :
    s.advance quiet (some input) number line = s.collect quiet (input.extend line) := rfl

theorem advance_blank (kind : Line.ofText line = .blank) :
    s.advance quiet none number line = ({ state := s }, none) := by
  simp only [advance, kind]

theorem advance_command {c : Command} (kind : Line.ofText line = .command c) :
    s.advance quiet none number line = (s.advanceCommand number c, none) := by
  simp only [advance, kind]

theorem advance_program {text : String} (kind : Line.ofText line = .program text) :
    s.advance quiet none number line = s.collect quiet { line := number, text := line } := by
  simp only [advance, kind, collect]

theorem collect_of_open (input : OpenInput) (goes : 0 < openParentheses input.text) :
    s.collect quiet input = ({ state := s }, some input) := if_pos goes

theorem collect_of_closed (input : OpenInput) (closed : ¬0 < openParentheses input.text) :
    s.collect quiet input = (s.advanceProgram quiet input.line input.text, none) := if_neg closed

theorem runLines_cons : s.runLines quiet pending number (line :: lines) =
    resume quiet (s.advance quiet pending number line) (number + 1) lines := by
  rw [runLines]
  rfl

theorem resume_of_goes {taken : Advance × Option OpenInput} (goes : taken.1.result = none) :
    (resume quiet taken number lines).outcome =
      (taken.1.state.runLines quiet taken.2 number lines).outcome := by
  simp only [resume, goes]

theorem resume_of_ended {taken : Advance × Option OpenInput} {outcome : ScriptOutcome}
    (ended : taken.1.result = some outcome) :
    (resume quiet taken number lines).outcome = outcome := by
  simp only [resume, ended]

/-- The script goes on with the further lines, and has printed something before. -/
theorem advanceAll_cons (goes : (s.advance quiet pending number line).1.result = none) :
    s.advanceAll quiet pending number (line :: lines) =
      let (step, next) := s.advance quiet pending number line
      let (rest, last) := step.state.advanceAll quiet next (number + 1) lines
      ({ rest with printed := step.printed ++ rest.printed }, last) := by
  rw [advanceAll]
  simp only [goes]

/-- A script is run as well by taking its first lines in and then going on. -/
theorem runLines_append (before rest : List String) :
    s.runLines quiet pending number (before ++ rest) =
      resume quiet (s.advanceAll quiet pending number before) (number + before.length) rest := by
  induction before generalizing s pending number with
  | nil => rfl
  | cons line before ih =>
    rw [List.cons_append, runLines_cons, advanceAll, resume]
    cases hresult : (s.advance quiet pending number line).1.result with
    | some outcome => simp only [resume, hresult]
    | none =>
      have hnumber : number + 1 + before.length = number + (line :: before).length := by
        rw [List.length_cons]
        omega
      simp only [ih, hnumber, resume]
      split <;> simp [*]

end Taking

section Failing

theorem failureOf_eq_failed {report : Except Fatal String}
    (h : failureOf number report = .failed first message) :
    first = number ∧ ∃ said, report = .ok said ∧ message = "Error: " ++ said := by
  cases report with
  | ok said =>
    cases h
    exact ⟨rfl, said, rfl, rfl⟩
  | error fatal => cases h

theorem programFault_of_advanceProgram {text : String}
    (h : (s.advanceProgram quiet number text).result = some (.failed first message)) :
    first = number ∧ s.ProgramFault text message := by
  cases programEnds h with
  | unread read outcome =>
    obtain ⟨rfl, report, reported, rfl⟩ := failureOf_eq_failed outcome.symm
    exact ⟨rfl, .unread read reported⟩
  | unexecuted read ending outcome =>
    obtain ⟨rfl, report, reported, rfl⟩ := failureOf_eq_failed outcome.symm
    exact ⟨rfl, .unexecuted read ending reported⟩
  | stopped outcome => cases outcome

theorem result_of_programFault {text : String} (fault : s.ProgramFault text message) :
    (s.advanceProgram quiet number text).result = some (.failed number message) := by
  cases fault with
  | unread read reported => simp only [advanceProgram, read, reported, failureOf]
  | unexecuted read ending reported =>
    simp only [advanceProgram, read, ending, reported, failureOf]

theorem fault_of_advanceCommand {c : Command} (kind : Line.ofText line = .command c)
    (h : (s.advanceCommand number c).result = some (.failed first message)) :
    first = number ∧ s.Fault (line :: lines) message := by
  cases commandEnds h with
  | complaint answer complaint => exact ⟨rfl, .command kind answer complaint⟩

theorem result_of_complaint {c : Command} {after : Interpreter}
    (answer : s.command c = .ok (after, some message)) (complaint : isComplaint message = true) :
    (s.advanceCommand number c).result = some (.failed number message) := by
  simp only [advanceCommand, answer, Option.filter_some, complaint, if_true]

/-- An input that fails ends the script, whatever the line on which it begins. -/
theorem outcome_of_inputFault {text : String} (fault : s.InputFault text lines message) :
    (resume quiet (s.collect quiet { line := first, text }) number lines).outcome =
      .failed first message := by
  induction fault generalizing number with
  | complete closed fault =>
    rw [collect_of_closed ⟨first, _⟩ closed]
    exact resume_of_ended (result_of_programFault fault)
  | next goes fault ih =>
    rw [collect_of_open ⟨first, _⟩ goes, resume_of_goes rfl, runLines_cons, advance_some]
    exact ih
  | unclosed goes =>
    rw [collect_of_open ⟨first, _⟩ goes]
    rfl

theorem outcome_of_fault (fault : s.Fault lines message) :
    (s.runLines quiet none number lines).outcome = .failed number message := by
  cases fault with
  | command kind answer complaint =>
    rw [runLines_cons, advance_command kind]
    exact resume_of_ended (result_of_complaint answer complaint)
  | input kind fault =>
    rw [runLines_cons, advance_program kind]
    exact outcome_of_inputFault fault

end Failing

section Finding

/-- Behind some of the lines, which the script goes on after with no input open, begin those that
fail. -/
inductive FaultBehind (s : Interpreter) (quiet : Bool) (pending : Option OpenInput) (number : Nat)
    (lines : List String) (first : Nat) (message : String) : Prop
  | intro (before : List String) {rest : List String} (split : lines = before ++ rest)
      (goes : (s.advanceAll quiet pending number before).1.result = none)
      (closed : (s.advanceAll quiet pending number before).2 = none)
      (counted : first = number + before.length)
      (fault : (s.advanceAll quiet pending number before).1.state.Fault rest message)

theorem FaultBehind.here (fault : s.Fault lines message) :
    FaultBehind s quiet none number lines number message :=
  .intro [] rfl rfl rfl rfl fault

theorem FaultBehind.cons {taken : Advance × Option OpenInput}
    (step : s.advance quiet pending number line = taken) (goes : taken.1.result = none)
    (behind : FaultBehind taken.1.state quiet taken.2 (number + 1) lines first message) :
    FaultBehind s quiet pending number (line :: lines) first message := by
  subst step
  cases behind with
  | intro before split stays closed counted fault =>
    have htaken : s.advanceAll quiet pending number (line :: before) = _ := advanceAll_cons goes
    refine .intro (line :: before) (congrArg (line :: ·) split) ?_ ?_ ?_ ?_
    · rw [htaken]
      exact stays
    · rw [htaken]
      exact closed
    · rw [counted, List.length_cons]
      omega
    · rw [htaken]
      exact fault

/-- Where a script over the lines fails: in the input that is open, or behind some of the lines. -/
def Located (s : Interpreter) (quiet : Bool) (pending : Option OpenInput) (number : Nat)
    (lines : List String) (first : Nat) (message : String) : Prop :=
  (∃ input, pending = some input ∧ first = input.line ∧ s.InputFault input.text lines message) ∨
    FaultBehind s quiet pending number lines first message

theorem located_none (h : s.Located quiet none number lines first message) :
    FaultBehind s quiet none number lines first message := by
  rcases h with ⟨input, hnone, -, -⟩ | hbehind
  · cases hnone
  · exact hbehind

/-- An input with the last of its lines so far. It fails itself, or the lines do behind it. -/
theorem located_of_collect
    (later : ∀ {s : Interpreter} {pending : Option OpenInput},
      (∀ input ∈ pending, 0 < openParentheses input.text) →
      (s.runLines quiet pending number lines).outcome = .failed first message →
      s.Located quiet pending number lines first message)
    (h : (resume quiet (s.collect quiet input) number lines).outcome = .failed first message) :
    first = input.line ∧ s.InputFault input.text lines message ∨
      (s.collect quiet input).1.result = none ∧ FaultBehind (s.collect quiet input).1.state quiet
        (s.collect quiet input).2 number lines first message := by
  by_cases goes : 0 < openParentheses input.text
  · rw [collect_of_open input goes] at h ⊢
    rw [resume_of_goes rfl] at h
    have unclosed : ∀ other ∈ some input, 0 < openParentheses other.text := by
      intro other hother
      cases hother
      exact goes
    rcases later unclosed h with ⟨other, hother, hfirst, fault⟩ | behind
    · cases hother
      exact Or.inl ⟨hfirst, fault⟩
    · exact Or.inr ⟨rfl, behind⟩
  · rw [collect_of_closed input goes] at h ⊢
    cases hresult : (s.advanceProgram quiet input.line input.text).result with
    | some outcome =>
      rw [resume_of_ended hresult] at h
      subst h
      obtain ⟨rfl, fault⟩ := programFault_of_advanceProgram hresult
      exact Or.inl ⟨rfl, .complete goes fault⟩
    | none =>
      rw [resume_of_goes hresult] at h
      exact Or.inr ⟨rfl, located_none (later (by simp) h)⟩

/-- Induction on the lines. An input is open only while one of its parentheses is. -/
theorem located_of_runLines (unclosed : ∀ input ∈ pending, 0 < openParentheses input.text)
    (h : (s.runLines quiet pending number lines).outcome = .failed first message) :
    s.Located quiet pending number lines first message := by
  induction lines generalizing s pending number with
  | nil =>
    cases pending with
    | none => cases h
    | some input =>
      cases h
      exact Or.inl ⟨input, rfl, rfl, .unclosed (unclosed input rfl)⟩
  | cons line lines ih =>
    rw [runLines_cons] at h
    cases pending with
    | some input =>
      rw [advance_some] at h
      rcases located_of_collect ih h with ⟨rfl, fault⟩ | ⟨goes, behind⟩
      · exact Or.inl ⟨input, rfl, rfl, .next (unclosed input rfl) fault⟩
      · exact Or.inr (.cons rfl goes behind)
    | none =>
      cases kind : Line.ofText line with
      | blank =>
        rw [advance_blank kind, resume_of_goes rfl] at h
        have behind := located_none (ih (by simp) h)
        exact Or.inr (.cons (advance_blank kind) rfl behind)
      | command c =>
        rw [advance_command kind] at h
        cases hresult : (s.advanceCommand number c).result with
        | none =>
          rw [resume_of_goes hresult] at h
          have behind := located_none (ih (by simp) h)
          exact Or.inr (.cons (advance_command kind) hresult behind)
        | some outcome =>
          rw [resume_of_ended hresult] at h
          subst h
          obtain ⟨rfl, fault⟩ := fault_of_advanceCommand kind hresult
          exact Or.inr (.here fault)
      | program text =>
        rw [advance_program kind] at h
        rcases located_of_collect ih h with ⟨rfl, fault⟩ | ⟨goes, behind⟩
        · exact Or.inr (.here (.input kind fault))
        · exact Or.inr (.cons (advance_program kind) goes behind)

end Finding

/-- The lines before are a script that does not fail; all of them are taken in, and no input is open
behind them. The first line is no blank or comment. The lines from it on fail in the state that the
lines before lead to, also as a script of their own. -/
structure FailsAfter (s : Interpreter) (quiet : Bool) (before : List String) (first : String)
    (rest : List String) (message : String) : Prop where
  finished : (s.runScript quiet before).outcome = .finished
  goes : (s.advanceAll quiet none 1 before).1.result = none
  closed : (s.advanceAll quiet none 1 before).2 = none
  matters : Line.ofText first ≠ .blank
  fault : (s.runScript quiet before).state.Fault (first :: rest) message
  again : ((s.runScript quiet before).state.runScript quiet (first :: rest)).outcome =
    .failed 1 message

theorem Fault.cons (fault : s.Fault lines message) :
    ∃ first rest, lines = first :: rest ∧ Line.ofText first ≠ .blank := by
  cases fault with
  | command kind | input kind => exact ⟨_, _, rfl, by simp [kind]⟩

/-- Lines that are all taken in and leave no input open are a script that does not fail. -/
theorem runScript_of_taken {before : List String}
    (goes : (s.advanceAll quiet none 1 before).1.result = none)
    (closed : (s.advanceAll quiet none 1 before).2 = none) :
    (s.runScript quiet before).outcome = .finished ∧
      (s.runScript quiet before).state = (s.advanceAll quiet none 1 before).1.state := by
  have happend : s.runLines quiet none 1 (before ++ []) = _ := runLines_append before []
  rw [List.append_nil] at happend
  rw [runScript, happend]
  simp [resume, goes, closed, runLines]

theorem FaultBehind.failsAfter (h : FaultBehind s quiet none 1 lines number message) :
    ∃ before first rest, lines = before ++ first :: rest ∧ number = before.length + 1 ∧
      s.FailsAfter quiet before first rest message := by
  cases h with
  | intro before split goes closed counted fault =>
    obtain ⟨first, rest, rfl, matters⟩ := fault.cons
    obtain ⟨finished, hstate⟩ := runScript_of_taken goes closed
    rw [← hstate] at fault
    exact ⟨before, first, rest, split, by omega,
      ⟨finished, goes, closed, matters, fault, outcome_of_fault fault⟩⟩

/-- A script that fails at a line does all that the lines in front of it do, which leave nothing
open and do not fail; it fails in what begins at that line, just as a script would that began
there. -/
theorem runScript_failed_iff (s : Interpreter) (quiet : Bool) (lines : List String) (number : Nat)
    (message : String) :
    (s.runScript quiet lines).outcome = .failed number message ↔
      ∃ before first rest, lines = before ++ first :: rest ∧ number = before.length + 1 ∧
        s.FailsAfter quiet before first rest message := by
  constructor
  · intro h
    have located : s.Located quiet none 1 lines number message := located_of_runLines (by simp) h
    exact (located_none located).failsAfter
  · rintro ⟨before, first, rest, rfl, rfl, fails⟩
    have fault := fails.fault
    rw [(runScript_of_taken fails.goes fails.closed).2] at fault
    rw [runScript, runLines_append, resume_of_goes fails.goes, fails.closed,
      outcome_of_fault fault, Nat.add_comm]

/-- The parenthesis in the comment closes nothing, and the failure names the line of the other. -/
example : (({} : Interpreter).runLines false none 4 ["f(a", "# b)"]).outcome =
    .failed 4 "Error: Unbalanced parentheses" :=
  outcome_of_fault (.input rfl (.next (by decide +kernel) (.unclosed (by decide +kernel))))

end Interpreter

end Stepwise
