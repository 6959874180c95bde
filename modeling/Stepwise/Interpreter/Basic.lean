import Stepwise.Session
import Stepwise.Files.Store
import Stepwise.Interpreter.Display
import Stepwise.Language.Statement

namespace Stepwise

/-- What statements work on. -/
structure Interpreter where
  registry : Registry := ∅
  session : Session := .idle
  display : Display := .operators
  /-- The directory that relative paths of derivations start from, if not the working one. -/
  outputDirectory : Option Files.Path := none
  running : Bool := true
  store : Files.Store := {}

/-- Why a statement fails. -/
inductive ExecutionError
  | step (error : StepError)
  | file (error : Files.FileError)

/-- Errors that no message reports: they end what the program is doing. -/
inductive Fatal
  | integerTooLarge
  | nullCharacter
  | unnamedFile
  | undecodable (error : Text.Utf8Error)

def Fatal.message : Fatal → String
  | .integerTooLarge => ReadError.integerTooLarge.message
  | .nullCharacter => Files.FileError.nullCharacter.message
  | .unnamedFile => "expected str, bytes or os.PathLike object, not list"
  | .undecodable error => error.message

/-- The message of an error, unless it is fatal. -/
def ExecutionError.report : ExecutionError → Except Fatal String
  | .step error => .ok error.message
  | .file (.refused fault path) => .ok (Files.FileError.refused fault path).message
  | .file .nullCharacter => .error .nullCharacter

/-- The message of an error, unless it is fatal. -/
def ReadError.report : ReadError → Except Fatal String
  | .integerTooLarge => .error .integerTooLarge
  | error => .ok error.message

namespace Derivation

/-- What a derivation file holds: JSON if its name says so, and otherwise the steps. -/
def fileText (d : Derivation) (path : Files.Path) : String :=
  (if path.extension? = some "json" then Json.write (some 2) d.toJson else d.describe) ++ "\n"

def save (d : Derivation) (store : Files.Store) (path : Files.Path) :
    Except Files.FileError Files.Store :=
  store.writeText path (d.fileText path)

end Derivation

namespace Interpreter

def present (s : Interpreter) (title : String) (t : Term) : String := s.display.present title t

/-- Where a derivation is written to. -/
def outputPath (s : Interpreter) (path : String) : Files.Path :=
  match s.outputDirectory with
  | some directory => (Files.Path.ofString path).within directory
  | none => Files.Path.ofString path

/-- Writes the derivation to the path, if there is one, and says where. -/
def writeDerivation (s : Interpreter) (d : Derivation) (path : Option String) :
    Except Files.FileError (Interpreter × String) := do
  match path with
  | none => return (s, "")
  | some path =>
    if path.isEmpty then return (s, "")
    else
      let output := s.outputPath path
      let store ← d.save s.store output
      return ({ s with store }, "\nDerivation written to " ++ output.text)

/-- Ends the session. If the derivation cannot be written the session stays open. -/
def finish (s : Interpreter) (path : Option String) :
    Except ExecutionError (Interpreter × Option String) :=
  match s.session.derivation with
  | .error _ => .ok (s, some "No active matching session to end")
  | .ok d => do
    let (s, written) ← (s.writeDerivation d path).mapError .file
    return ({ s with session := .idle }, some (s.present "Result: " d.final ++ written))

def startSession (s : Interpreter) (t : Term) : Interpreter × Option String :=
  match s.session.current? with
  | some current =>
    (s, some s!"Already matching on {current.renderInfix}; use 'end' to finish first")
  | none => ({ s with session := .begin t }, some (s.present "Start matching on: " t))

def makeStep (s : Interpreter) (ref : RuleRef) (depth : Nat) :
    Except ExecutionError (Interpreter × Option String) := do
  let (step, session) ← (s.session.step s.registry ref depth).mapError .step
  return ({ s with session }, some (s.present "    " step.after))

def undoStep (s : Interpreter) : Except ExecutionError (Interpreter × Option String) := do
  let (t, session) ← s.session.undo.mapError .step
  return ({ s with session }, some (s.present "    " t))

/-- Executes a statement; the answer is the new state and what is said about it. -/
def execute (s : Interpreter) : Statement → Except ExecutionError (Interpreter × Option String)
  | .define name rule =>
    .ok ({ s with registry := s.registry.define name rule }, some ("Defined rule: " ++ name))
  | .start t => .ok (s.startSession t)
  | .inline rule depth => s.makeStep (.inline rule) depth
  | .apply name depth => s.makeStep (.named name) depth
  | .undo => s.undoStep
  | .finish path => s.finish path
  | .quit => .ok ({ s with running := false }, none)

end Interpreter

/-- What a statement says. -/
structure Message where
  text : String
  /-- Whether the statement was to end a session. -/
  isResult : Bool

/-- How the execution of statements ends: after the last one, or after one that leaves the
interpreter stopped, or at one that fails. -/
inductive Ending
  | finished
  | stopped
  | failed (error : ExecutionError)

structure Execution where
  state : Interpreter
  messages : List Message
  ending : Ending

def Statement.isFinish : Statement → Bool
  | .finish _ => true
  | _ => false

/-- The message of a statement, if it says something. -/
def Statement.message (statement : Statement) (said : Option String) : List Message :=
  (said.map fun text => { text, isResult := statement.isFinish }).toList

/-- Executes statements one after another. One that fails changes nothing, and those behind it are
not executed. -/
def Interpreter.executeAll (s : Interpreter) : List Statement → Execution
  | [] => { state := s, messages := [], ending := .finished }
  | statement :: statements => match s.execute statement with
    | .error error => { state := s, messages := [], ending := .failed error }
    | .ok (s, said) =>
      if s.running then
        let rest := s.executeAll statements
        { rest with messages := statement.message said ++ rest.messages }
      else { state := s, messages := statement.message said, ending := .stopped }

end Stepwise
