import Stepwise.Json.Value
import Stepwise.Json.Escape

namespace Stepwise.Json

/-- What cannot be read becomes a token too, which is refused where it is met. -/
inductive Piece
  | openList
  | closeList
  | openObject
  | closeObject
  | comma
  | colon
  | text (s : String)
  | value (v : Json)
  /-- A quoted text that cannot be read, with the position of the fault. -/
  | brokenText (fault : TextFault) (position : Nat)
  /-- An integer with too many digits. -/
  | longInteger (digits : Nat)
  | stray

/-- A token with the position of its first character. -/
structure Token where
  piece : Piece
  position : Nat

def isDigit (c : Char) : Bool := '0' ≤ c && c ≤ '9'

/-- A zero, or digits that begin with another one. -/
def wholePart : List Char → List Char
  | '0' :: _ => ['0']
  | cs => cs.takeWhile isDigit

/-- A point with at least one digit behind it. -/
def fractionPart : List Char → List Char
  | '.' :: d :: cs => if isDigit d then '.' :: (d :: cs).takeWhile isDigit else []
  | _ => []

/-- The letter `e`, perhaps a sign, and at least one digit. -/
def exponentPart : List Char → List Char
  | e :: s :: cs =>
    if e = 'e' ∨ e = 'E' then
      if (s = '+' ∨ s = '-') ∧ cs.head?.any isDigit then e :: s :: cs.takeWhile isDigit
      else if isDigit s then e :: (s :: cs).takeWhile isDigit
      else []
    else []
  | _ => []

/-- Integers have at most this many digits. -/
def maxDigits : Nat := 4300

/-- The unsigned number at the start of a text, and its length. -/
def number? (negative : Bool) (cs : List Char) : Option (Piece × Nat) :=
  let whole := wholePart cs
  let rest := cs.drop whole.length
  let fraction := fractionPart rest
  let exponent := exponentPart (rest.drop fraction.length)
  let numeral := whole ++ fraction ++ exponent
  if whole.isEmpty then none
  else if fraction.isEmpty ∧ exponent.isEmpty then
    if maxDigits < whole.length then some (.longInteger whole.length, whole.length)
    else
      let n : Int := Text.digitsValue whole
      some (.value (.int (if negative then -n else n)), whole.length)
  else
    some (.value (.real (Extended.ofDecimal negative (Decimal.ofNumeral numeral))), numeral.length)

/-- The words that stand for values. -/
def words : List (List Char × Json) :=
  [("null".toList, .null), ("true".toList, .bool true), ("false".toList, .bool false),
   ("NaN".toList, .real .notANumber), ("Infinity".toList, .real (.infinite false)),
   ("-Infinity".toList, .real (.infinite true))]

/-- The word at the start of a text, and its length. -/
def word? (cs : List Char) : Option (Piece × Nat) :=
  (words.find? fun (word, _) => word.isPrefixOf cs).map fun (word, v) => (.value v, word.length)

def mark? : Char → Option Piece
  | '[' => some .openList
  | ']' => some .closeList
  | '\x7b' => some .openObject
  | '\x7d' => some .closeObject
  | ',' => some .comma
  | ':' => some .colon
  | _ => none

/-- The token at the start of a text `c :: cs`, and its length. -/
def piece (position : Nat) (c : Char) (cs : List Char) : Piece × Nat :=
  match mark? c with
  | some mark => (mark, 1)
  | none =>
    if c = '"' then
      match readText cs with
      | .ok (s, length) => (.text s, length + 1)
      | .error (.unterminated, _) => (.brokenText .unterminated position, 1)
      | .error (fault, distance) => (.brokenText fault (position + 1 + distance), 1)
    else
      match word? (c :: cs) with
      | some found => found
      | none =>
        if c = '-' then ((number? true cs).map fun (p, n) => (p, n + 1)).getD (.stray, 1)
        else (number? false (c :: cs)).getD (.stray, 1)

/-- Whether no text with this token can be read. -/
def Piece.isFaulty : Piece → Bool
  | .brokenText _ _ | .longInteger _ | .stray => true
  | _ => false

def isBlank (c : Char) : Bool := c == ' ' || c == '\t' || c == '\n' || c == '\r'

/-- The tokens from a position on, up to the first faulty one. The first `skip` characters belong
to what was read last. -/
def scan (position skip : Nat) : List Char → List Token
  | [] => []
  | c :: cs => match skip with
    | skip + 1 => scan (position + 1) skip cs
    | 0 =>
      if isBlank c then scan (position + 1) 0 cs
      else
        let (p, length) := piece position c cs
        ⟨p, position⟩ :: if p.isFaulty then [] else scan (position + 1) (length - 1) cs

end Stepwise.Json
