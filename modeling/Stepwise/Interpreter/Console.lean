import Stepwise.Interpreter.Line
import Stepwise.Language.Parentheses

namespace Stepwise

def versionNumber : String := "0.1.0"

/-- Lines are typed at a prompt, and are put together while a parenthesis is open. -/
structure Console where
  interpreter : Interpreter := {}
  /-- The lines of an input that is not complete. -/
  pending : String := ""

/-- What comes from the keyboard: a line, or the request to stop. -/
inductive Key
  | line (text : String)
  | interrupt
deriving DecidableEq, Repr

namespace Console

def banner : String :=
  s!"REX {versionNumber} - Rewriting EXpressions one step at a time\n" ++
    "Type :help for help, :quit to exit\n\n"

def prompt (c : Console) : String :=
  if !c.pending.isEmpty then "...... "
  else if c.interpreter.session.isActive then "  ~> "
  else "rex> "

/-- What is printed, and the console after it. After a fatal error nothing more is read. -/
structure Reaction where
  printed : String
  console : Console
  fatal : Option Fatal := none

def enter (c : Console) (line : String) : Reaction :=
  let text := if c.pending.isEmpty then line else c.pending ++ "\n" ++ line
  let count := openParentheses text
  if 0 < count then { printed := "", console := { c with pending := text } }
  else if count < 0 then
    { printed := "Error: Unbalanced parentheses (too many closing)\n"
      console := { c with pending := "" } }
  else
    let response := c.interpreter.processLine text
    let console : Console := { interpreter := response.state, pending := "" }
    match response.answer with
    | .error fatal => { printed := "", console, fatal }
    | .ok none => { printed := "", console }
    | .ok (some answer) => { printed := answer ++ "\n", console }

/-- An interrupt discards an input that is not complete. -/
def interrupt (c : Console) : Reaction :=
  { printed := if c.pending.isEmpty then "\n" else "\nInput cancelled\n"
    console := { c with pending := "" } }

def react (c : Console) : Key → Reaction
  | .line text => c.enter text
  | .interrupt => c.interrupt

/-- All that is printed for the keys, and the console after the last that is read. The end of the
input ends the dialogue like a request to quit. -/
def run (c : Console) (keys : List Key) : List String × Reaction :=
  if c.interpreter.running then
    match keys with
    | [] => ([c.prompt], { printed := "\n", console := c })
    | key :: keys =>
      let reaction := c.react key
      if reaction.fatal.isSome then ([c.prompt], reaction)
      else
        let (printed, last) := reaction.console.run keys
        (c.prompt :: reaction.printed :: printed, last)
  else ([], { printed := "", console := c })

end Console

end Stepwise
