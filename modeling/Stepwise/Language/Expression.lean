import Stepwise.Language.Token

namespace Stepwise

/-- The left operand of a chain: a finished term, or a run that the same operator may extend. -/
inductive Chain
  | single (t : Term)
  | run (operator : Operator) (operands : List Term)

namespace Chain

def term : Chain → Term
  | .single t => t
  | .run operator operands => .app operator.functor operands

/-- Adds an operand on the right. -/
def extend (left : Chain) (operator : Operator) (right : Term) : Chain :=
  match left with
  | .run o operands =>
    if o = operator then .run o (operands ++ [right])
    else if operator.isFlat then .run operator [left.term, right]
    else .single (.app operator.functor [left.term, right])
  | .single t =>
    if operator.isFlat then .run operator [t, right]
    else .single (.app operator.functor [t, right])

end Chain

/-- A left operand with the operator behind it. -/
structure Pending where
  left : Chain
  operator : Operator

/-- The chain after a further operand; without a left operand the operand begins one. -/
def Pending.join (pending : Option Pending) (operand : Term) : Chain :=
  match pending with
  | some p => p.left.extend p.operator operand
  | none => .single operand

/-- What binds tighter than any chain: a minus sign, or a base waiting for its exponent. -/
inductive Tight
  | negation
  | base (t : Term)

def Tight.apply (operand : Term) : Tight → Term
  | .negation => .app negationFunctor [operand]
  | .base t => .app Operator.pow.functor [t, operand]

/-- What is pending since the last open parenthesis. The innermost of `tight` comes first. -/
structure Level where
  sum : Option Pending := none
  product : Option Pending := none
  tight : List Tight := []

namespace Level

/-- The operand with its negations and powers. -/
def factor (level : Level) (operand : Term) : Term := level.tight.foldl Tight.apply operand

/-- The product that the operand ends. -/
def productChain (level : Level) (operand : Term) : Chain :=
  Pending.join level.product (level.factor operand)

/-- The sum that the operand ends. -/
def sumChain (level : Level) (operand : Term) : Chain :=
  Pending.join level.sum (level.productChain operand).term

/-- The whole expression, when the operand is its last. -/
def close (level : Level) (operand : Term) : Term := (level.sumChain operand).term

/-- What is pending after an operand and an operator. -/
def push (level : Level) (operand : Term) (operator : Operator) : Level :=
  match operator with
  | .pow => { level with tight := .base operand :: level.tight }
  | .mul | .div =>
    { sum := level.sum, product := some ⟨level.productChain operand, operator⟩ }
  | .add | .sub => { sum := some ⟨level.sumChain operand, operator⟩ }

def negate (level : Level) : Level := { level with tight := .negation :: level.tight }

end Level

/-- What a parenthesis opened: a group, or a call with the arguments read so far. -/
inductive Opening
  | group
  | call (functor : String) (args : List Term)

/-- An open parenthesis with what was pending in front of it. -/
structure Enclosing where
  opening : Opening
  level : Level

namespace Token

def hasKind (kind : Kind) : List Token → Bool
  | t :: _ => t.kind == kind
  | [] => false

/-- Whether the token can name a functor: a name always, a keyword before a parenthesis. -/
def isCallable (t : Token) : Bool :=
  match t.kind with
  | .name | .keyword _ => true
  | _ => false

/-- The constant that a numeral denotes. -/
def number (t : Token) : Except ReadError Number :=
  match Number.ofNumeral? t.text.toList with
  | some a => .ok a
  | none => .error (.malformed (.numberOutOfRange t.text (some t.position)))

end Token

/-- A constant within the binary64 range. -/
def constant (a : Number) : Except ReadError Term :=
  if a.inRange then .ok (.const a) else .error .integerTooLarge

/-- The text that stands where something else had to come, and its position. -/
def expectedError (what : Expected) (stop : Nat) : List Token → ReadError
  | t :: _ => .malformed (.expected what (some t.text) t.position)
  | [] => .malformed (.expected what none stop)

mutual

/-- Reads on where an operand has to come. A text ends at position `stop`. -/
def readOperand (stop : Nat) (level : Level) (outer : List Enclosing) :
    List Token → Except ReadError (Term × List Token)
  | [] => .error (expectedError .operand stop [])
  | t :: ts => match t.kind with
    | .number => do
      let operand ← constant (← t.number)
      readOperator stop level outer operand ts
    | .operator .sub => match ts with
      | n :: rest =>
        if n.kind = .number ∧ ¬ Token.hasKind (.operator .pow) rest then do
          let operand ← constant (← n.number).neg
          readOperator stop level outer operand rest
        else readOperand stop level.negate outer (n :: rest)
      | [] => readOperand stop level.negate outer []
    | .opening => readOperand stop {} (⟨.group, level⟩ :: outer) ts
    | kind => match ts with
      | p :: rest =>
        if t.isCallable ∧ p.kind = .opening then
          match rest with
          | c :: after =>
            if c.kind = .closing then readOperator stop level outer (.app t.text []) after
            else readOperand stop {} (⟨.call t.text [], level⟩ :: outer) (c :: after)
          | [] => readOperand stop {} (⟨.call t.text [], level⟩ :: outer) []
        else if kind = .name then readOperator stop level outer (.var t.text) (p :: rest)
        else .error (expectedError .operand stop (t :: p :: rest))
      | [] =>
        if kind = .name then readOperator stop level outer (.var t.text) []
        else .error (expectedError .operand stop [t])

/-- Reads on behind an operand. The expression ends before the first token that cannot go on with
it, if no parenthesis is open then. -/
def readOperator (stop : Nat) (level : Level) (outer : List Enclosing) (operand : Term) :
    List Token → Except ReadError (Term × List Token)
  | [] => match outer with
    | [] => .ok (level.close operand, [])
    | _ :: _ => .error (expectedError .closing stop [])
  | t :: ts => match t.kind with
    | .operator operator => readOperand stop (level.push operand operator) outer ts
    | kind => match outer with
      | [] => .ok (level.close operand, t :: ts)
      | ⟨.group, below⟩ :: outer =>
        if kind = .closing then readOperator stop below outer (level.close operand) ts
        else .error (expectedError .closing stop (t :: ts))
      | ⟨.call f args, below⟩ :: outer =>
        if kind = .closing then
          readOperator stop below outer (.app f (args ++ [level.close operand])) ts
        else if kind = .comma then
          readOperand stop {} (⟨.call f (args ++ [level.close operand]), below⟩ :: outer) ts
        else .error (expectedError .closing stop (t :: ts))

end

/-- The longest expression at the start of the tokens, and the tokens after it. They are read in one
pass. Sums and products associate to the left, and a run of `+` or of `*` becomes one functor with
many arguments. Powers associate to the right. A minus in front of a numeral makes a negative
constant, unless the numeral is raised to a power. -/
def readExpression (stop : Nat) (tokens : List Token) : Except ReadError (Term × List Token) :=
  readOperand stop {} [] tokens

end Stepwise
