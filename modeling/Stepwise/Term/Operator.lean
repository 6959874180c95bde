namespace Stepwise

inductive Operator
  | add
  | sub
  | mul
  | div
  | pow
deriving DecidableEq, Repr

namespace Operator

def functor : Operator → String
  | .add => "add"
  | .sub => "sub"
  | .mul => "mul"
  | .div => "div"
  | .pow => "pow"

def symbol : Operator → Char
  | .add => '+'
  | .sub => '-'
  | .mul => '*'
  | .div => '/'
  | .pow => '^'

def ofSymbol? : Char → Option Operator
  | '+' => some .add
  | '-' => some .sub
  | '*' => some .mul
  | '/' => some .div
  | '^' => some .pow
  | _ => none

/-- Whether a run of the operator is one functor with many arguments. -/
def isFlat : Operator → Bool
  | .add | .mul => true
  | _ => false

end Operator

/-- The functor of the minus sign in front of a term. -/
def negationFunctor : String := "neg"

end Stepwise
