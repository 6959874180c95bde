import Stepwise.Term.Render
import Stepwise.Term.Operator

namespace Stepwise

/-- How an application is written with operators. -/
inductive InfixShape
  | negation
  | power
  | chain (operator : Operator)
deriving DecidableEq, Repr

/-- The operators by which a functor of the given arity is written, if any. -/
def infixShape? (functor : String) (arity : Nat) : Option InfixShape :=
  if functor = "add" ∧ 2 ≤ arity then some (.chain .add)
  else if functor = "mul" ∧ 2 ≤ arity then some (.chain .mul)
  else if functor = "sub" ∧ arity = 2 then some (.chain .sub)
  else if functor = "div" ∧ arity = 2 then some (.chain .div)
  else if functor = "pow" ∧ arity = 2 then some .power
  else if functor = "neg" ∧ arity = 1 then some .negation
  else none

/-- How tightly a written term holds together: sums 1, products 2, negations 3, powers 4,
atoms and calls 5. -/
def InfixShape.precedence : InfixShape → Nat
  | .chain .add | .chain .sub => 1
  | .chain .mul | .chain .div => 2
  | .chain .pow | .power => 4
  | .negation => 3

namespace Term

/-- A negative constant holds together no better than a negation. -/
def precedence : Term → Nat
  | .const a => if a.isNegative then 3 else 5
  | .var _ => 5
  | .app f args => match infixShape? f args.length with
    | some shape => shape.precedence
    | none => 5

/-- Whether the term is a run of the given operator, which would merge with a run around it. -/
def isRunOf (operator : Operator) : Term → Bool
  | .app f args => operator.isFlat && infixShape? f args.length == some (.chain operator)
  | _ => false

end Term

/-- A written operand, in parentheses if need be. -/
def wrapped (parentheses : Bool) (operand : List Char) : List Char :=
  if parentheses then '(' :: operand ++ [')'] else operand

/-- The operator of a chain, between blanks. -/
def spaced (operator : Operator) : List Char := [' ', operator.symbol, ' ']

/-- The infix form of an application whose arguments are already written. -/
def layoutInfix (functor : String) (args : List (Term × List Char)) : List Char :=
  match infixShape? functor args.length, args with
  | some .negation, [(t, text)] => '-' :: wrapped (t.precedence < 4 || t.isConstant) text
  | some .power, [(b, base), (e, exponent)] =>
    wrapped (b.precedence ≤ 4) base ++ '^' :: wrapped (e.precedence < 3) exponent
  | some (.chain operator), (t, first) :: rest =>
    let level := (InfixShape.chain operator).precedence
    wrapped (t.precedence < level || t.isRunOf operator) first ++
      rest.flatMap fun (u, text) => spaced operator ++ wrapped (u.precedence ≤ level) text
  | _, _ => writtenCall functor (args.map Prod.snd)

namespace Term

mutual

def writtenInfix : Term → List Char
  | .const a => a.text.toList
  | .var x => x.toList
  | .app f args => layoutInfix f (args.zip (writtenInfixAll args))

def writtenInfixAll : List Term → List (List Char)
  | [] => []
  | a :: as => a.writtenInfix :: writtenInfixAll as

end

def renderInfix (t : Term) : String := String.ofList t.writtenInfix

mutual

/-- Whether any part of the term is written with an operator. -/
def hasInfix : Term → Bool
  | .app f args => (infixShape? f args.length).isSome || anyHasInfix args
  | _ => false

def anyHasInfix : List Term → Bool
  | [] => false
  | a :: as => a.hasInfix || anyHasInfix as

end

end Term

end Stepwise
