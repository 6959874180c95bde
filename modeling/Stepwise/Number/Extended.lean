import Stepwise.Number.Shortest

namespace Stepwise

/-- Binary64 numbers together with the infinities and the value that is not a number. Data may hold
them; terms hold finite numbers only. -/
inductive Extended
  | finite (x : Binary64)
  | infinite (negative : Bool)
  | notANumber
deriving DecidableEq

namespace Extended

/-- The number nearest to a decimal; beyond the largest number there is an infinity. -/
def ofDecimal (negative : Bool) (d : Decimal) : Extended :=
  match Binary64.ofDecimal? negative d with
  | some x => .finite x
  | none => .infinite negative

def text : Extended → String
  | .finite x => x.text
  | .infinite negative => if negative then "-inf" else "inf"
  | .notANumber => "nan"

/-- The number that a text written by `text` denotes. -/
def ofText (s : String) : Extended :=
  match s.toList with
  | '-' :: cs => if s = "-inf" then .infinite true else ofDecimal true (Decimal.ofNumeral cs)
  | cs =>
    if s = "inf" then .infinite false
    else if s = "nan" then .notANumber
    else ofDecimal false (Decimal.ofNumeral cs)

end Extended

end Stepwise
