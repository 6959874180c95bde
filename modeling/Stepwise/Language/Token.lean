import Stepwise.Text.Blank
import Stepwise.Text.Digit
import Stepwise.Term.Operator
import Stepwise.Language.Error

namespace Stepwise

/-- Words with a meaning of their own. In front of an opening parenthesis they are functor names
like any other. -/
inductive Keyword
  | define
  | naming
  | depth
  | finish
  | undo
  | quit
deriving DecidableEq, Repr

def Keyword.word : Keyword → String
  | .define => "def"
  | .naming => "as"
  | .depth => "at"
  | .finish => "end"
  | .undo => "undo"
  | .quit => "quit"

def Keyword.all : List Keyword := [.define, .naming, .depth, .finish, .undo, .quit]

def Keyword.ofWord? (word : String) : Option Keyword := Keyword.all.find? fun k => k.word == word

inductive Token.Kind
  | number
  | name
  | string
  | arrow
  | operator (operator : Operator)
  | opening
  | closing
  | comma
  | semicolon
  | keyword (keyword : Keyword)
deriving DecidableEq, Repr

/-- A token with the position of its first character. -/
structure Token where
  kind : Token.Kind
  text : String
  position : Nat
deriving DecidableEq, Repr

namespace Token

def isLetter (c : Char) : Bool := ('a' ≤ c ∧ c ≤ 'z') ∨ ('A' ≤ c ∧ c ≤ 'Z')

def startsName (c : Char) : Bool := isLetter c || c == '_'

def continuesName (c : Char) : Bool := startsName c || ('0' ≤ c && c ≤ '9') || c == '\''

/-- The exponent part at the start of a text, if it is complete. -/
def exponentPart : List Char → List Char
  | e :: s :: rest =>
    if e = 'e' ∨ e = 'E' then
      if (s = '+' ∨ s = '-') ∧ rest.head?.any Text.isDigit then
        e :: s :: rest.takeWhile Text.isDigit
      else if Text.isDigit s then e :: (s :: rest).takeWhile Text.isDigit
      else []
    else []
  | _ => []

/-- The point and the digits after it. -/
def fractionPart : List Char → List Char
  | '.' :: rest => '.' :: rest.takeWhile Text.isDigit
  | _ => []

/-- The longest numeral at the start of a text. -/
def numeral (cs : List Char) : List Char :=
  let whole := cs.takeWhile Text.isDigit
  let rest := cs.dropWhile Text.isDigit
  let fraction := fractionPart rest
  whole ++ fraction ++ exponentPart (rest.drop fraction.length)

def startsNumeral : List Char → Bool
  | '.' :: cs => cs.head?.any Text.isDigit
  | cs => cs.head?.any Text.isDigit

/-- A quoted text on one line, with its quotation marks. -/
def quotation? (cs : List Char) : Option (List Char) :=
  let body := cs.takeWhile fun c => c != '"' && c != '\n'
  if (cs.drop body.length).head? = some '"' then some ('"' :: body ++ ['"']) else none

def symbolKind? : Char → Option Kind
  | '(' => some .opening
  | ')' => some .closing
  | ',' => some .comma
  | ';' => some .semicolon
  | c => (Operator.ofSymbol? c).map .operator

def wordKind (word : List Char) : Kind :=
  match Keyword.ofWord? (String.ofList word) with
  | some keyword => .keyword keyword
  | none => .name

/-- What stands at the start of a text `c :: cs`: its kind, or `none` for a blank or a comment,
and its characters. There is no answer where nothing can start. -/
def lexeme? (c : Char) (cs : List Char) : Option (Option Kind × List Char) :=
  if Text.isBlank c then some (none, [c])
  else if c = '#' then some (none, c :: cs.takeWhile fun d => d != '\n')
  else if startsNumeral (c :: cs) then some (some .number, numeral (c :: cs))
  else if startsName c then
    let word := c :: cs.takeWhile continuesName
    some (some (wordKind word), word)
  else if c = '"' then (quotation? cs).map fun text => (some .string, text)
  else if c = '=' then
    if cs.head? = some '>' then some (some .arrow, ['=', '>']) else none
  else (symbolKind? c).map fun kind => (some kind, [c])

def lexicalError (c : Char) (position : Nat) : SyntaxError :=
  if c = '"' then .unterminatedString position
  else if c = '=' then .loneEquals position
  else .unknownCharacter c position

/-- The tokens from a position on. The first `skip` characters belong to what was read last. -/
def scan (position skip : Nat) : List Char → Except SyntaxError (List Token)
  | [] => .ok []
  | c :: cs => match skip with
    | skip + 1 => scan (position + 1) skip cs
    | 0 => match lexeme? c cs with
      | none => .error (lexicalError c position)
      | some (none, text) => scan (position + 1) (text.length - 1) cs
      | some (some kind, text) => do
        let tokens ← scan (position + 1) (text.length - 1) cs
        return ⟨kind, String.ofList text, position⟩ :: tokens

end Token

def tokenize (text : String) : Except SyntaxError (List Token) := Token.scan 0 0 text.toList

end Stepwise
