import Stepwise.Text.Blank
import Stepwise.Text.Lowercase
import Stepwise.Interpreter.Help
import Stepwise.Interpreter.Load

namespace Stepwise

/-- What a line that begins with a colon asks for. -/
inductive Command
  | help
  | quit
  | load (file : String)
  | rules
  | clear
  | history
  | display (name : String)
  | unknown (word : String)
  | missing
deriving DecidableEq, Repr

namespace Command

/-- The command that a word and the rest of the line make. The word may be in capitals. -/
def ofWord (word argument : String) : Command :=
  let word := Text.lowercase word
  if word = "help" then .help
  else if word = "quit" ∨ word = "exit" ∨ word = "q" then .quit
  else if word = "load" then .load argument
  else if word = "rules" then .rules
  else if word = "clear" then .clear
  else if word = "history" then .history
  else if word = "notation" then .display argument
  else .unknown word

/-- The command of a line, seen from behind its colon. -/
def ofText (s : String) : Command :=
  match Text.firstWord? s with
  | none => .missing
  | some (word, rest) => ofWord word (Text.trim rest)

end Command

/-- The answer to a command. A fatal error leaves the state as it was. -/
abbrev Answer := Except Fatal (Interpreter × Option String)

namespace Interpreter

def say (s : Interpreter) (message : String) : Answer := .ok (s, some message)

def loadFile (s : Interpreter) (file : String) : Answer :=
  let path := Files.Path.ofString file
  match s.load path with
  | .ok loaded =>
    let total := loaded.registry.size
    loaded.say
      s!"Loaded rules from {path.text} ({total - s.registry.size} new, {total} total)"
  | .error error => do s.say (s!"Error loading {file}: " ++ (← error.report))

def listRules (s : Interpreter) : String :=
  let definitions := s.registry.definitions
  if definitions.isEmpty then "No rules defined" else "\n".intercalate definitions

def showHistory (s : Interpreter) : String :=
  match s.session.derivation with
  | .ok d => d.describe
  | .error _ => "No active matching session"

def chooseDisplay (s : Interpreter) (name : String) : Answer :=
  if name.isEmpty then s.say ("Notation: " ++ s.display.name)
  else match Display.ofName? (Text.lowercase name) with
    | some display => .ok ({ s with display }, some ("Notation set to: " ++ display.name))
    | none =>
      s.say ("Unknown notation. Options: " ++ ", ".intercalate (Display.all.map Display.name))

def command (s : Interpreter) : Command → Answer
  | .help => s.say helpText
  | .quit => .ok ({ s with running := false }, none)
  | .load file => if file.isEmpty then s.say "Usage: :load FILENAME" else s.loadFile file
  | .rules => s.say s.listRules
  | .clear => .ok ({ s with registry := ∅ }, some "Cleared all rules")
  | .history => s.say s.showHistory
  | .display name => s.chooseDisplay name
  | .unknown word => s.say s!"Unknown command: {word}. Type :help for help."
  | .missing => s.say "Unknown command. Type :help for help."

end Interpreter

end Stepwise
