import Mathlib.Data.List.DropRight
import Stepwise.Proofs.RuleFile.ObjectRoundTrip

namespace Stepwise

namespace Table

variable {α β : Type}

end Table

namespace Registry

variable {registry : Registry}

end Registry

namespace Workspace

/-- The rules of a text or a file, under their own names; without rules nothing is defined. -/
def definedBy {ε : Type} : Except ε (List Rule) → List (String × Rule)
  | .ok rules => rules.map fun rule => (rule.name.getD "", rule)
  | .error _ => []

namespace Operation

/-- The definitions that an operation makes, in their order. -/
def defined : Operation → List (String × Rule)
  | .define name rule => if name.isEmpty then [] else [(name, rule)]
  | .loadText text => definedBy (readDefinitions text)
  | .loadFile store path => definedBy (store.readRules path)
  | _ => []

def clears : Operation → Bool
  | .clear => true
  | _ => false

end Operation

/-- The definitions that operations make behind the last one that clears the registry. -/
def defined (ops : List Operation) : List (String × Rule) :=
  (ops.rtakeWhile fun op => !op.clears).flatMap Operation.defined

variable {w after : Workspace} {before : List (String × Rule)} {op : Operation} {answer : Answer}

end Workspace

/-- What is defined again keeps its place, and what is cleared loses it. -/
example (a b : Rule) : (Workspace.run {} [.define "x" a, .define "y" b, .clear, .define "y" a,
    .define "x" a, .define "" b, .define "y" b]).registry.entries =
      [("y", b.named "y"), ("x", a.named "x")] := rfl

end Stepwise
