import Stepwise.Language.Statement

namespace Stepwise

def Statement.definition : Statement → Except ReadError Rule
  | .define _ rule => .ok rule
  | statement => .error (.malformed (.notADefinition statement.kind))

/-- The rules that a text defines, in its order. -/
def readDefinitions (text : String) : Except ReadError (List Rule) := do
  (← readProgram text).mapM Statement.definition

end Stepwise
