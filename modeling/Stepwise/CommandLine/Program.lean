import Stepwise.CommandLine.Help
import Stepwise.CommandLine.Options
import Stepwise.Interpreter.Console
import Stepwise.Interpreter.Script

namespace Stepwise

/-- What the standard input is: a text, or a keyboard. -/
inductive StandardInput
  | text (s : String)
  | keyboard (keys : List Key)

/-- How a run ends: with an exit code, or at the end of a dialogue, or by a fatal error. -/
inductive Exit
  | code (n : Nat)
  | dialogueOver
  | fatal (error : Fatal)

/-- What a run prints, how it ends, and the files after it. -/
structure Outcome where
  printed : String := ""
  complaints : String := ""
  exit : Exit
  store : Files.Store

namespace ScriptRun

def linesOf (messages : List String) : String := String.join (messages.map fun m => m ++ "\n")

/-- A script run as the outcome of the program. The name of the source stands before an error. -/
def outcomeFor (run : ScriptRun) (source : String) : Outcome :=
  let printed := linesOf run.printed
  let store := run.state.store
  match run.outcome with
  | .finished => { printed, exit := .code 0, store }
  | .failed line message =>
    { printed, complaints := s!"{source}:{line}: {message}\n", exit := .code 1, store }
  | .fatal error => { printed, exit := .fatal error, store }

end ScriptRun

namespace Interpreter

/-- Runs a text under the name of its source. -/
def runText (s : Interpreter) (quiet : Bool) (source text : String) : Outcome :=
  (s.runScript quiet (Text.lines text)).outcomeFor source

/-- Runs a file. Derivations go into its directory unless their path is absolute. -/
def runFile (s : Interpreter) (quiet : Bool) (path : Files.Path) : Outcome :=
  match s.store.readText path with
  | .ok text => { s with outputDirectory := some path.parent }.runText quiet path.text text
  | .error (.file .nullCharacter) => { exit := .fatal .nullCharacter, store := s.store }
  | .error (.file (.refused fault path)) =>
    { complaints := s!"Error reading {path.text}: " ++
        (Files.FileError.refused fault path).message ++ "\n"
      exit := .code 1, store := s.store }
  | .error (.undecodable error) => { exit := .fatal (.undecodable error), store := s.store }

/-- Runs the console until its input ends. -/
def runConsole (s : Interpreter) (keys : List Key) : Outcome :=
  let (printed, last) := ({ interpreter := s } : Console).run keys
  { printed := Console.banner ++ String.join printed ++ last.printed
    exit := match last.fatal with
      | some error => .fatal error
      | none => .dialogueOver
    store := last.console.interpreter.store }

/-- Loads rule files. Unless it is quiet, each is reported on the error output; the first that
cannot be loaded, or has no name, ends the run. -/
def loadAll (s : Interpreter) (quiet : Bool) :
    List (Option String) → String × Except Exit Interpreter
  | [] => ("", .ok s)
  | none :: _ => ("", .error (.fatal .unnamedFile))
  | some file :: files => match s.load (Files.Path.ofString file) with
    | .error error => match error.report with
      | .ok message => (s!"Error loading {file}: {message}\n", .error (.code 1))
      | .error fatal => ("", .error (.fatal fatal))
    | .ok s =>
      let (complaints, result) := s.loadAll quiet files
      ((if quiet then "" else s!"Loaded rules from {file}\n") ++ complaints, result)

end Interpreter

namespace CommandLine

/-- Runs what the options choose. An empty script or program text is as good as none. -/
def runChosen (s : Interpreter) (options : Options) (input : StandardInput) : Outcome :=
  let given (text : Option String) := text.filter fun t => !t.isEmpty
  match given options.script, given options.expression, input with
  | some script, _, _ => s.runFile options.quiet (Files.Path.ofString script)
  | none, some text, _ => s.runText options.quiet "<expr>" text
  | none, none, .text text => s.runText options.quiet "<stdin>" text
  | none, none, .keyboard keys => s.runConsole keys

def runOptions (options : Options) (input : StandardInput) (store : Files.Store) : Outcome :=
  let s : Interpreter := { display := options.display, store }
  match s.loadAll options.quiet options.rules with
  | (complaints, .error exit) => { complaints, exit, store }
  | (complaints, .ok s) =>
    let outcome := runChosen s options input
    { outcome with complaints := complaints ++ outcome.complaints }

/-- A run of the program with the given arguments. -/
def run (arguments : List String) (input : StandardInput) (store : Files.Store) : Outcome :=
  match Options.ofArguments arguments with
  | .ok options => runOptions options input store
  | .error .help => { printed := helpText, exit := .code 0, store }
  | .error .version =>
    { printed := s!"{programName} {versionNumber}\n", exit := .code 0, store }
  | .error (.usage error) =>
    { complaints := usageText ++ s!"{programName}: error: {error.message}\n"
      exit := .code 2, store }

end CommandLine

end Stepwise
