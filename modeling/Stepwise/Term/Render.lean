import Stepwise.Term.Basic

namespace Stepwise

/-- Joins written parts by commas. -/
def commaSeparated (parts : List (List Char)) : List Char := List.intercalate [',', ' '] parts

/-- A name with its written arguments in parentheses. -/
def writtenCall (name : String) (args : List (List Char)) : List Char :=
  name.toList ++ '(' :: commaSeparated args ++ [')']

namespace Term

mutual

/-- Every application is written as a name with its arguments in parentheses. -/
def written : Term → List Char
  | .const a => a.text.toList
  | .var x => x.toList
  | .app f args => writtenCall f (writtenAll args)

def writtenAll : List Term → List (List Char)
  | [] => []
  | a :: as => a.written :: writtenAll as

end

def render (t : Term) : String := String.ofList t.written

end Term

end Stepwise
