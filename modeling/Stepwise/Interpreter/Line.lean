import Stepwise.Interpreter.Command

namespace Stepwise

/-- What a line is for. Blank lines and comments are for nothing. -/
inductive Line
  | blank
  | command (c : Command)
  | program (text : String)

/-- The kind of a line from which the blanks at both ends have been removed. -/
def Line.ofTrimmed (s : String) : Line :=
  match s.toList with
  | [] => .blank
  | '#' :: _ => .blank
  | ':' :: cs => .command (Command.ofText (String.ofList cs))
  | _ => .program s

def Line.ofText (s : String) : Line := Line.ofTrimmed (Text.trim s)

/-- The state after a line, and the text it is answered with. -/
structure Response where
  state : Interpreter
  answer : Except Fatal (Option String)

namespace Interpreter

/-- The messages in order, with that of the error at the end. -/
def answerOf (messages : List Message) : Ending → Except Fatal (Option String)
  | .failed error => do
    let report ← error.report
    return some ("\n".intercalate (messages.map Message.text ++ ["Error: " ++ report]))
  | _ => .ok (if messages.isEmpty then none else
      some ("\n".intercalate (messages.map Message.text)))

/-- Executes a line of statements, unless they cannot all be read. -/
def processProgram (s : Interpreter) (text : String) : Response :=
  match readProgram text with
  | .error error =>
    { state := s, answer := error.report.map fun report => some ("Error: " ++ report) }
  | .ok statements =>
    let execution := s.executeAll statements
    { state := execution.state, answer := answerOf execution.messages execution.ending }

def processLine (s : Interpreter) (line : String) : Response :=
  match Line.ofText line with
  | .blank => { state := s, answer := .ok none }
  | .command c => match s.command c with
    | .ok (s, said) => { state := s, answer := .ok said }
    | .error fatal => { state := s, answer := .error fatal }
  | .program text => s.processProgram text

/-- The path that a statement writes to. -/
def pathOf (s : Interpreter) : Statement → Option Files.Path
  | .finish path => path.map s.outputPath
  | _ => none

/-- The paths that a line may read from or write to. -/
def pathsOf (s : Interpreter) (line : String) : List Files.Path :=
  match Line.ofText line with
  | .command (.load file) => [Files.Path.ofString file]
  | .program text => ((readProgram text).toOption.getD []).filterMap s.pathOf
  | _ => []

end Interpreter

end Stepwise
