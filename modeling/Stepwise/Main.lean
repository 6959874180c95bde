import Stepwise.CommandLine.Program

namespace Stepwise.Main

/-- Whether the system has a directory at a place. -/
def isDirectory (place : Files.Location) : IO Bool := do
  try
    let _ ← IO.FS.realPath (place.text ++ "/.")
    return true
  catch _ => return false

/-- Looks up what the system has at a place. -/
def lookUp (store : Files.Store) (place : Files.Location) : IO Files.Store := do
  if store.isDirectory place then return store
  if ← isDirectory place then return store.addDirectory place
  try
    let bytes ← IO.FS.readBinFile place.text
    return { store with files := Files.Store.putContent store.files place bytes.toList }
  catch _ => return store

/-- Looks up every place on the way to a path. -/
def lookUpPath (store : Files.Store) (path : Files.Path) : IO Files.Store := do
  let mut store := store
  let mut place := Files.Store.origin path.anchor
  for name in path.parts do
    match store.enter place name with
    | .ok next =>
      place := next
      store ← lookUp store place
    | .error _ => return store
  return store

/-- Writes the files that have changed. -/
def commit (earlier store : Files.Store) : IO Unit :=
  for (place, bytes) in store.changesSince earlier do
    IO.FS.writeBinFile place.text ⟨bytes.toArray⟩

/-- Looks up the files for a line. -/
def prepare (s : Interpreter) (line : String) : IO Interpreter := do
  return { s with store := ← (s.pathsOf line).foldlM lookUpPath s.store }

def reportFatal (error : Fatal) : IO UInt32 := do
  IO.eprintln s!"{CommandLine.programName}: {error.message}"
  return 1

/-- Before each line the files that it may use are looked up, and after it those that it has changed
are written. -/
def runLines (s : Interpreter) (quiet : Bool) (source : String) (pending : Option OpenInput)
    (number : Nat) : List String → IO UInt32
  | [] => conclude (s.runLines quiet pending number []).outcome
  | line :: lines => do
    let text := match pending with
      | some input => input.text ++ "\n" ++ line
      | none => line
    let s ← prepare s text
    let (step, pending) := s.advance quiet pending number line
    commit s.store step.state.store
    step.printed.forM fun m => IO.println m
    match step.result with
    | some outcome => conclude outcome
    | none => runLines step.state quiet source pending (number + 1) lines
where
  /-- Reports how the script ends. -/
  conclude : ScriptOutcome → IO UInt32
    | .finished => return 0
    | .failed line message => do
      IO.eprintln s!"{source}:{line}: {message}"
      return 1
    | .fatal error => reportFatal error

partial def runConsole (c : Console) : IO UInt32 := do
  if !c.interpreter.running then return 0
  let output ← IO.getStdout
  output.putStr c.prompt
  output.flush
  let line ← (← IO.getStdin).getLine
  if line.isEmpty then
    output.putStr "\n"
    return 0
  let line := if line.endsWith "\n" then String.ofList line.toList.dropLast else line
  let text := if c.pending.isEmpty then line else c.pending ++ "\n" ++ line
  let c := { c with interpreter := ← prepare c.interpreter text }
  let reaction := c.enter line
  commit c.interpreter.store reaction.console.interpreter.store
  output.putStr reaction.printed
  match reaction.fatal with
  | some error => reportFatal error
  | none => runConsole reaction.console

/-- Runs a script file. -/
def runFile (s : Interpreter) (quiet : Bool) (path : Files.Path) : IO UInt32 := do
  let s := { s with store := ← lookUpPath s.store path }
  match s.store.readText path with
  | .ok text =>
    let s := { s with outputDirectory := some path.parent }
    runLines s quiet path.text none 1 (Text.lines text)
  | .error _ =>
    let outcome := s.runFile quiet path
    IO.eprint outcome.complaints
    match outcome.exit with
    | .fatal error => reportFatal error
    | _ => return 1

/-- The whole standard input. -/
partial def readAll (input : IO.FS.Stream) (text : String) : IO String := do
  let line ← input.getLine
  if line.isEmpty then return text else readAll input (text ++ line)

def runChosen (s : Interpreter) (options : CommandLine.Options) : IO UInt32 := do
  let given (text : Option String) := text.filter fun t => !t.isEmpty
  match given options.script, given options.expression with
  | some script, _ => runFile s options.quiet (Files.Path.ofString script)
  | none, some text => runLines s options.quiet "<expr>" none 1 (Text.lines text)
  | none, none =>
    let input ← IO.getStdin
    if ← input.isTty then
      IO.print Console.banner
      runConsole { interpreter := s }
    else runLines s options.quiet "<stdin>" none 1 (Text.lines (← readAll input ""))

def runOptions (options : CommandLine.Options) : IO UInt32 := do
  let files := options.rules.filterMap id
  let store ← (files.map Files.Path.ofString).foldlM lookUpPath {}
  let (complaints, result) :=
    ({ display := options.display, store } : Interpreter).loadAll options.quiet options.rules
  IO.eprint complaints
  match result with
  | .ok s => runChosen s options
  | .error (.fatal error) => reportFatal error
  | .error (.code n) => return n.toUInt32
  | .error .dialogueOver => return 0

end Stepwise.Main

def main (arguments : List String) : IO UInt32 := do
  match Stepwise.CommandLine.Options.ofArguments arguments with
  | .ok options => Stepwise.Main.runOptions options
  | .error _ =>
    let outcome := Stepwise.CommandLine.run arguments (.text "") {}
    IO.print outcome.printed
    IO.eprint outcome.complaints
    match outcome.exit with
    | .code n => return n.toUInt32
    | _ => return 0
