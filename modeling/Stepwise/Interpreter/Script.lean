import Stepwise.Text.Start
import Stepwise.Interpreter.Line
import Stepwise.Language.Parentheses

namespace Stepwise

/-- How a script ends. A failure names the line on which its input began. -/
inductive ScriptOutcome
  | finished
  | failed (line : Nat) (message : String)
  | fatal (error : Fatal)

/-- What a script prints, and the state in which it leaves the interpreter. -/
structure ScriptRun where
  state : Interpreter
  printed : List String
  outcome : ScriptOutcome

/-- The lines of an input that is not complete, and the number of the first of them. -/
structure OpenInput where
  line : Nat
  text : String

namespace Interpreter

/-- The messages that are printed: all of them, or those of ended sessions only. -/
def printedOf (quiet : Bool) (messages : List Message) : List String :=
  (messages.filter fun m => !quiet || m.isResult).map Message.text

/-- Whether the answer to a command tells of an error. -/
def isComplaint (answer : String) : Bool :=
  Text.beginsWith answer "Error" || Text.beginsWith answer "Unknown"

def failureOf (line : Nat) (report : Except Fatal String) : ScriptOutcome :=
  match report with
  | .ok message => .failed line ("Error: " ++ message)
  | .error fatal => .fatal fatal

/-- What becomes of a script after one of its inputs: it goes on, or it is over. -/
structure Advance where
  state : Interpreter
  printed : List String := []
  result : Option ScriptOutcome := none

/-- Executes the statements of an input that began on a line. -/
def advanceProgram (s : Interpreter) (quiet : Bool) (line : Nat) (text : String) : Advance :=
  match readProgram text with
  | .error error => { state := s, result := failureOf line error.report }
  | .ok statements =>
    let execution := s.executeAll statements
    { state := execution.state
      printed := printedOf quiet execution.messages
      result := match execution.ending with
        | .finished => none
        | .stopped => some .finished
        | .failed error => some (failureOf line error.report) }

/-- Carries a command out. Its answer is not printed. -/
def advanceCommand (s : Interpreter) (line : Nat) (c : Command) : Advance :=
  match s.command c with
  | .error fatal => { state := s, result := some (.fatal fatal) }
  | .ok (s, said) =>
    match said.filter isComplaint with
    | some message => { state := s, result := some (.failed line message) }
    | none => { state := s, result := if s.running then none else some .finished }

/-- Takes in one line. Statements may go on over several lines while a parenthesis is open. -/
def advance (s : Interpreter) (quiet : Bool) (pending : Option OpenInput) (number : Nat)
    (line : String) : Advance × Option OpenInput :=
  let collect (input : OpenInput) : Advance × Option OpenInput :=
    if 0 < openParentheses input.text then ({ state := s }, some input)
    else (s.advanceProgram quiet input.line input.text, none)
  match pending with
  | some input => collect { input with text := input.text ++ "\n" ++ line }
  | none => match Line.ofText line with
    | .blank => ({ state := s }, none)
    | .command c => (s.advanceCommand number c, none)
    | .program _ => collect { line := number, text := line }

/-- Runs lines of which the first has the given number. -/
def runLines (s : Interpreter) (quiet : Bool) (pending : Option OpenInput) (number : Nat) :
    List String → ScriptRun
  | [] =>
    let outcome := match pending with
      | some input => .failed input.line "Error: Unbalanced parentheses"
      | none => .finished
    { state := s, printed := [], outcome }
  | line :: lines =>
    let (step, pending) := s.advance quiet pending number line
    match step.result with
    | some outcome => { state := step.state, printed := step.printed, outcome }
    | none =>
      let rest := step.state.runLines quiet pending (number + 1) lines
      { rest with printed := step.printed ++ rest.printed }

/-- Runs a script from its first line. -/
def runScript (s : Interpreter) (quiet : Bool) (lines : List String) : ScriptRun :=
  s.runLines quiet none 1 lines

end Interpreter

end Stepwise
