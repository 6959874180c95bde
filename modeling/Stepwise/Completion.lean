import Stepwise.Registry
import Stepwise.Files.Glob
import Stepwise.Text.Blank
import Stepwise.Text.Start
import Stepwise.Language.Token
import Stepwise.Interpreter.Display

namespace Stepwise.Completion

/-- The commands in the order in which they are offered. -/
def commandNames : List String :=
  [":help", ":quit", ":exit", ":q", ":load", ":rules", ":clear", ":history", ":notation"]

/-- The words that a text begins. -/
def beginningWith (text : String) (words : List String) : List String :=
  words.filter fun word => Text.beginsWith word text

/-- The paths that a text begins, with a slash behind each directory. -/
def paths (store : Files.Store) (text : String) : List String :=
  let found := store.pathsFrom (if text.isEmpty then "./" else text)
  sortedNames (found.map fun s =>
    if store.isDirectoryAt (Files.Path.ofString s) then s ++ "/" else s)

/-- The ways to complete a text at the end of a line: display forms and paths behind the commands
that take them, commands, and otherwise the names of rules and the keywords. -/
def candidates (registry : Registry) (store : Files.Store) (text line : String) : List String :=
  let line := String.ofList (Text.trimStart line.toList)
  if Text.beginsWith line ":notation " then beginningWith text (Display.all.map Display.name)
  else if Text.beginsWith line ":load " then paths store text
  else if Text.beginsWith text ":" || (Text.beginsWith line ":" && !line.toList.contains ' ') then
    beginningWith text commandNames
  else if text.isEmpty then []
  else beginningWith text (registry.names ++ sortedNames (Keyword.all.map Keyword.word))

end Stepwise.Completion
