import Stepwise.Language.Expression

namespace Stepwise

inductive Statement
  | define (name : String) (rule : Rule)
  | inline (rule : Rule) (depth : Nat)
  | apply (name : String) (depth : Nat)
  | start (term : Term)
  | finish (path : Option String)
  | undo
  | quit

/-- What messages call a statement. -/
def Statement.kind : Statement → String
  | .define _ _ => "Define"
  | .inline _ _ => "RewriteInline"
  | .apply _ _ => "ApplyNamed"
  | .start _ => "Expression"
  | .finish _ => "End"
  | .undo => "Undo"
  | .quit => "Quit"

/-- Whether the tokens begin with the keyword, used as such. In front of an opening parenthesis it
names a functor. -/
def Token.hasKeyword (keyword : Keyword) : List Token → Bool
  | t :: rest => t.kind == .keyword keyword && !hasKind .opening rest
  | [] => false

/-- Takes a token of the kind that has to come. -/
def expectKind (kind : Token.Kind) (what : Expected) (stop : Nat) :
    List Token → Except ReadError (Token × List Token)
  | t :: rest =>
    if t.kind = kind then .ok (t, rest) else .error (expectedError what stop (t :: rest))
  | [] => .error (expectedError what stop [])

def makeRule (pattern replacement : Term) (name : Option String) : Except ReadError Rule :=
  (Rule.make? pattern replacement name).mapError .unbound

/-- A depth is an integer of any size. -/
def readDepth (stop : Nat) (tokens : List Token) : Except ReadError (Nat × List Token) := do
  let (t, rest) ← expectKind .number .number stop tokens
  match ← t.number with
  | .int n => return (n.toNat, rest)
  | .float _ => throw (.malformed (.fractionalDepth t.text t.position))

/-- The two sides of `PATTERN => REPLACEMENT`. -/
def readSides (stop : Nat) (tokens : List Token) :
    Except ReadError (Term × Term × List Token) := do
  let (pattern, rest) ← readExpression stop tokens
  let (_, rest) ← expectKind .arrow .arrow stop rest
  let (replacement, rest) ← readExpression stop rest
  return (pattern, replacement, rest)

/-- The rest of a definition after `def`. -/
def readDefinition (stop : Nat) (tokens : List Token) :
    Except ReadError (Statement × List Token) := do
  let (name, rest) ← expectKind .name .definedName stop tokens
  let (_, rest) ← expectKind (.keyword .naming) .naming stop rest
  let (pattern, replacement, rest) ← readSides stop rest
  return (.define name.text (← makeRule pattern replacement name.text), rest)

/-- The rest of `end` with the path that may follow it. -/
def readFinish : List Token → Statement × List Token
  | t :: rest =>
    if t.kind = .string then
      (.finish (String.ofList (t.text.toList.tail.dropLast)), rest)
    else (.finish none, t :: rest)
  | [] => (.finish none, [])

/-- An in-line rule whose left side and arrow have been read. Without a depth it applies to the
whole term. -/
def readInline (stop : Nat) (pattern : Term) (tokens : List Token) :
    Except ReadError (Statement × List Token) := do
  let (replacement, rest) ← readExpression stop tokens
  let rule ← makeRule pattern replacement none
  if Token.hasKeyword .depth rest then
    let (depth, rest) ← readDepth stop rest.tail
    return (.inline rule depth, rest)
  else return (.inline rule 0, rest)

/-- A rule name before `at`. -/
def readApply (stop : Nat) (position : Nat) (left : Term) (tokens : List Token) :
    Except ReadError (Statement × List Token) := do
  match left with
  | .var name =>
    let (depth, rest) ← readDepth stop tokens
    return (.apply name depth, rest)
  | _ => throw (.malformed (.ruleNameExpected left.render position))

/-- A statement that begins with an expression. -/
def readFromExpression (stop : Nat) (tokens : List Token) :
    Except ReadError (Statement × List Token) := do
  let (left, rest) ← readExpression stop tokens
  match rest with
  | t :: after =>
    if t.kind = .arrow then readInline stop left after
    else if Token.hasKeyword .depth rest then readApply stop t.position left after
    else return (.start left, rest)
  | [] => return (.start left, [])

/-- The statement at the start of the tokens, and the tokens after it. -/
def readStatement (stop : Nat) (tokens : List Token) :
    Except ReadError (Statement × List Token) :=
  if Token.hasKeyword .define tokens then readDefinition stop tokens.tail
  else if Token.hasKeyword .finish tokens then .ok (readFinish tokens.tail)
  else if Token.hasKeyword .undo tokens then .ok (.undo, tokens.tail)
  else if Token.hasKeyword .quit tokens then .ok (.quit, tokens.tail)
  else readFromExpression stop tokens

/-- All statements of the tokens; semicolons may stand between them. The first `skip` tokens
belong to the statement read last. -/
def readStatements (stop : Nat) (skip : Nat) : List Token → Except ReadError (List Statement)
  | [] => .ok []
  | t :: ts => match skip with
    | skip + 1 => readStatements stop skip ts
    | 0 =>
      if t.kind = .semicolon then readStatements stop 0 ts
      else do
        let (statement, rest) ← readStatement stop (t :: ts)
        let statements ← readStatements stop (ts.length - rest.length) ts
        return statement :: statements

theorem readStatements_skip {stop : Nat} {ts rest : List Token} :
    readStatements stop ts.length (ts ++ rest) = readStatements stop 0 rest := by
  induction ts with
  | nil => rfl
  | cons t ts ih => exact ih

/-- Refuses tokens that are left over. -/
def checkFinished : List Token → Except ReadError Unit
  | [] => .ok ()
  | t :: _ => .error (.malformed (.unexpected t.text t.position))

def tokensOf (text : String) : Except ReadError (List Token) :=
  (tokenize text).mapError .malformed

def readProgram (text : String) : Except ReadError (List Statement) := do
  readStatements text.length 0 (← tokensOf text)

def readTerm (text : String) : Except ReadError Term := do
  let (t, rest) ← readExpression text.length (← tokensOf text)
  checkFinished rest
  return t

def readRule (text : String) (name : Option String) : Except ReadError Rule := do
  let (pattern, replacement, rest) ← readSides text.length (← tokensOf text)
  checkFinished rest
  makeRule pattern replacement name

end Stepwise
