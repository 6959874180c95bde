import Stepwise.Table
import Stepwise.Term.Infix
import Stepwise.Json.Writer
import Stepwise.Rule.Reduction
import Stepwise.RuleFile.Object

namespace Stepwise

/-- Named rules. A name keeps the place of its first definition and holds the rule that was defined
last. -/
abbrev Registry := Table Rule

/-- A rule by its name, or the rule itself. -/
inductive RuleRef
  | named (name : String)
  | inline (rule : Rule)

namespace Registry

/-- Stores a rule under a name, which becomes its own. -/
def define (registry : Registry) (name : String) (rule : Rule) : Registry :=
  registry.put name (rule.named name)

/-- What is said of a rule without a name. -/
def emptyNameMessage : String := "Rule name cannot be empty"

/-- Stores a rule under a name that may be empty, which no rule's name is. -/
def define? (registry : Registry) (name : String) (rule : Rule) : Option Registry :=
  if name.isEmpty then none else some (registry.define name rule)

/-- Defines all rules under their own names. -/
def defineAll (registry : Registry) (rules : List Rule) : Registry :=
  rules.foldl (fun r rule => r.define (rule.name.getD "") rule) registry

def resolve (registry : Registry) : RuleRef → Except StepError Rule
  | .inline rule => .ok rule
  | .named name => match registry.find? name with
    | some rule => .ok rule
    | none => .error (.unknownRule name)

/-- The definition that gives a rule its name. -/
def definition (name : String) (rule : Rule) : String :=
  s!"def {name} as {rule.pattern.renderInfix} => {rule.replacement.renderInfix}"

def definitions (registry : Registry) : List String :=
  registry.entries.map fun (name, rule) => definition name rule

/-- The definitions as one text, under a title if one is given. -/
def toText (registry : Registry) (title : Option String) : String :=
  let header := match title with
    | some t => if t.isEmpty then [] else ["# " ++ t, ""]
    | none => []
  "\n".intercalate (header ++ registry.definitions)

def entryJson (name : String) (rule : Rule) : Json :=
  .object [("name", .text name), ("pattern", .text rule.pattern.render),
    ("replacement", .text rule.replacement.render)]

def toJson (registry : Registry) : Json :=
  .object [("rules", .list (registry.entries.map fun (name, rule) => entryJson name rule))]

def describe (registry : Registry) : String := s!"RuleRegistry({registry.size} rules)"

end Registry

end Stepwise
