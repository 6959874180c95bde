import Stepwise.Interpreter.Basic

namespace Stepwise

/-- Why a file yields no rules. -/
inductive LoadError
  | file (error : Files.TextFileError)
  | content (error : RuleFileError)

/-- The message of an error, unless it is fatal. -/
def LoadError.report : LoadError → Except Fatal String
  | .file (.file error) => .ok error.message
  | .file (.undecodable error) => .ok error.message
  | .content (.unreadable error) => error.report
  | .content error => .ok error.message

/-- The rules in a text, which is JSON if the name of its file says so. -/
def readRules (path : Files.Path) (text : String) : Except RuleFileError (List Rule) :=
  if path.extension? = some "json" then readRuleObject text
  else (readDefinitions text).mapError .unreadable

def Files.Store.readRules (store : Files.Store) (path : Files.Path) :
    Except LoadError (List Rule) := do
  let text ← (store.readText path).mapError .file
  (Stepwise.readRules path text).mapError .content

namespace Interpreter

/-- Defines the rules of a file. All of them are read before the first is defined. -/
def load (s : Interpreter) (path : Files.Path) : Except LoadError Interpreter := do
  let rules ← s.store.readRules path
  return { s with registry := s.registry.defineAll rules }

end Interpreter

end Stepwise
