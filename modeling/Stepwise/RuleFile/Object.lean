import Stepwise.Json.Reader
import Stepwise.RuleFile.Definitions

namespace Stepwise

/-- Why a text yields no rules. -/
inductive RuleFileError
  | unreadable (error : ReadError)
  | notJson (error : Json.Error)
  | notAnObject (value : Json)
  | rulesNotAList (value : Json)
  | entryNotAnObject (entry : Json)
  | unnamedEntry (entry : Json)
  | missingText (name : String) (field : String) (entry : Json)

def RuleFileError.message : RuleFileError → String
  | .unreadable error => error.message
  | .notJson error => error.message
  | .notAnObject value => "Rule file must hold a JSON object, got " ++ value.kind
  | .rulesNotAList value => "'rules' must be a list, got " ++ value.kind
  | .entryNotAnObject entry => "Rule entry must be an object: " ++ entry.shown
  | .unnamedEntry entry => "Rule entry without a name: " ++ entry.shown
  | .missingText name field entry =>
    s!"Rule entry '{name}' needs a string '{field}': " ++ entry.shown

namespace RuleEntry

/-- The name of an entry, which must not be empty. -/
def name (entry : Json) : Except RuleFileError String :=
  match entry.field? "name" with
  | some (.text s) => if s.isEmpty then .error (.unnamedEntry entry) else .ok s
  | _ => .error (.unnamedEntry entry)

def text (entry : Json) (name field : String) : Except RuleFileError String :=
  match entry.field? field with
  | some (.text s) => .ok s
  | _ => .error (.missingText name field entry)

/-- The rule that an entry describes. Both sides must be there before either is read. -/
def rule (entry : Json) : Except RuleFileError Rule :=
  match entry with
  | .object _ => do
    let name ← RuleEntry.name entry
    let pattern ← text entry name "pattern"
    let replacement ← text entry name "replacement"
    let pattern ← (readTerm pattern).mapError .unreadable
    let replacement ← (readTerm replacement).mapError .unreadable
    (makeRule pattern replacement name).mapError .unreadable
  | _ => .error (.entryNotAnObject entry)

end RuleEntry

/-- The rules that a JSON value describes, in its order: an object whose field `rules` lists them. A
file without the field has none. -/
def rulesOfJson : Json → Except RuleFileError (List Rule)
  | .object fields =>
    match (fields.lookup "rules").getD (.list []) with
    | .list entries => entries.mapM RuleEntry.rule
    | other => .error (.rulesNotAList other)
  | other => .error (.notAnObject other)

def readRuleObject (text : String) : Except RuleFileError (List Rule) := do
  rulesOfJson (← (Json.read text).mapError .notJson)

end Stepwise
