import Stepwise.Number.Shortest

namespace Stepwise

/-- An integer or a binary64 number. -/
inductive Number
  | int (n : Int)
  | float (x : Binary64)
deriving DecidableEq

namespace Number

def value : Number → Rat
  | .int n => n
  | .float x => x.value

/-- Whether two constants are the same number: their exact values count, so `2` and `2.0` are, and
so are `0` and `-0.0`. -/
def same (a b : Number) : Bool := a.value == b.value

theorem same_iff {a b : Number} : a.same b = true ↔ a.value = b.value := beq_iff_eq

def isNegative (a : Number) : Bool := a.value < 0

def neg : Number → Number
  | .int n => .int (-n)
  | .float x => .float x.neg

/-- Integers from here on would round to more than the largest binary64 number. -/
def intBound : Nat := Nat.pow 2 1024 - Nat.pow 2 970

/-- Whether the value fits the binary64 range. -/
def inRange : Number → Bool
  | .int n => n.natAbs < intBound
  | .float _ => true

/-- A number without a fraction is written as an integer, any other with the fewest digits
that identify it. -/
def text (a : Number) : String :=
  match a with
  | .int n => toString n
  | .float x => if x.value.den = 1 then toString x.value.num else x.text

/-- The longest row of digits that is read as an integer. -/
def maxIntDigits : Nat := 4300

/-- The number that a numeral denotes: an integer if it is a row of digits of bounded length, and
otherwise the nearest binary64 number, unless that is out of range. -/
def ofNumeral? (cs : List Char) : Option Number :=
  if cs.all Text.isDigit ∧ cs.length ≤ maxIntDigits then some (.int (Text.digitsValue cs))
  else (Binary64.ofDecimal? false (Decimal.ofNumeral cs)).map .float

end Number

end Stepwise
