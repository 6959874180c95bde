import Stepwise.Text.Quoted
import Stepwise.Rule.Basic

namespace Stepwise

/-- What had to come next. -/
inductive Expected
  | operand
  | closing
  | number
  | naming
  | arrow
  | definedName
deriving DecidableEq, Repr

def Expected.text : Expected → String
  | .operand => "constant or variable"
  | .closing => "')'"
  | .number => "number"
  | .naming => "as"
  | .arrow => "derive"
  | .definedName => "identifier after 'def'"

/-- What can be wrong with a text of the surface language. -/
inductive SyntaxError
  | unterminatedString (position : Nat)
  | loneEquals (position : Nat)
  | unknownCharacter (c : Char) (position : Nat)
  | numberOutOfRange (numeral : String) (position : Option Nat)
  | expected (what : Expected) (got : Option String) (position : Nat)
  | unexpected (text : String) (position : Nat)
  | ruleNameExpected (got : String) (position : Nat)
  | fractionalDepth (numeral : String) (position : Nat)
  | notADefinition (statement : String)
deriving DecidableEq, Repr

namespace SyntaxError

/-- The position that the error points at, counted in characters. -/
def position? : SyntaxError → Option Nat
  | .unterminatedString p | .loneEquals p | .unknownCharacter _ p | .expected _ _ p
  | .unexpected _ p | .ruleNameExpected _ p | .fractionalDepth _ p => some p
  | .numberOutOfRange _ p => p
  | .notADefinition _ => none

def cause : SyntaxError → String
  | .unterminatedString _ => "Unterminated string literal"
  | .loneEquals _ => "Expected '>' after '='"
  | .unknownCharacter c _ => "Unknown character " ++ Text.quoted (String.singleton c)
  | .numberOutOfRange numeral _ => "Number out of range: " ++ numeral
  | .expected what got _ =>
    "Expected " ++ what.text ++ ", but got " ++ (got.map Text.quoted).getD "nothing"
  | .unexpected text _ => "Unexpected " ++ Text.quoted text
  | .ruleNameExpected got _ => "Expected a rule name before 'at', got " ++ got
  | .fractionalDepth numeral _ => "Depth must be a whole number, got " ++ numeral
  | .notADefinition statement => "Rule files may only contain definitions, got " ++ statement

def message (e : SyntaxError) : String :=
  match e.position? with
  | some p => s!"{e.cause} at position {p}"
  | none => e.cause

end SyntaxError

/-- Why a text cannot be read. An integer beyond the binary64 range is no syntax error. -/
inductive ReadError
  | malformed (error : SyntaxError)
  | unbound (error : UnboundVariables)
  | integerTooLarge

def ReadError.message : ReadError → String
  | .malformed error => error.message
  | .unbound error => error.message
  | .integerTooLarge => "int too large to convert to float"

end Stepwise
