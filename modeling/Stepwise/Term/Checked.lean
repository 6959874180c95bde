import Stepwise.Json.Value
import Stepwise.Term.Basic

namespace Stepwise

/-- Why no term can be built. -/
inductive BuildError
  | notANumber (value : Json)
  | notFinite (x : Extended)
  | integerTooLarge
  | emptyVariable
  | emptyFunctor
  | argumentsNotAList (value : Json)
  | argumentNotATerm (value : Json)

def BuildError.message : BuildError → String
  | .notANumber value => "Constant value must be a number, got " ++ value.shown
  | .notFinite x => "Constant value must be finite, got " ++ x.text
  | .integerTooLarge => "int too large to convert to float"
  | .emptyVariable => "Variable name cannot be empty"
  | .emptyFunctor => "Functor name cannot be empty"
  | .argumentsNotAList value =>
    s!"Functor args must be list or tuple, got <class '{value.kind}'>"
  | .argumentNotATerm value => "Functor argument must be a Term, got " ++ value.shown

/-- What takes a term, and is given something else. -/
inductive TermUse
  | render
  | pattern
  | start
  | statement
deriving DecidableEq, Repr

def TermUse.refusal (use : TermUse) (value : Json) : String :=
  (match use with
    | .render => "render: not a term: "
    | .pattern => "match: not a term: "
    | .start => "Session.start expects a Term, got "
    | .statement => "Unknown statement: ") ++ value.shown

/-- An argument that is a term already, or data. -/
inductive Argument
  | term (t : Term)
  | data (value : Json)

namespace Term

def constantOf (value : Json) : Except BuildError Term :=
  match value with
  | .int n => if (Number.int n).inRange then .ok (.const (.int n)) else .error .integerTooLarge
  | .real (.finite x) => .ok (.const (.float x))
  | .real x => .error (.notFinite x)
  | _ => .error (.notANumber value)

def variableOf (name : String) : Except BuildError Term :=
  if name.isEmpty then .error .emptyVariable else .ok (.var name)

def argumentOf : Argument → Except BuildError Term
  | .term t => .ok t
  | .data value => .error (.argumentNotATerm value)

def applicationOf (functor : String) (args : List Argument) : Except BuildError Term :=
  if functor.isEmpty then .error .emptyFunctor
  else (args.mapM argumentOf).map (.app functor)

/-- An application whose arguments are given as one piece of data. -/
def applicationOfData (functor : String) (args : Json) : Except BuildError Term :=
  if functor.isEmpty then .error .emptyFunctor
  else match args with
    | .list items => applicationOf functor (items.map .data)
    | _ => .error (.argumentsNotAList args)

/-- An atom of its own kind: a text is the name of a variable, any other value a constant. -/
def atomOf : Json → Except BuildError Term
  | .text name => variableOf name
  | value => constantOf value

/-- A functor applied to atoms. -/
def applicationOfAtoms (functor : String) (atoms : List Json) : Except BuildError Term := do
  applicationOf functor ((← atoms.mapM atomOf).map .term)

end Term

end Stepwise
