import Stepwise.Text.Digit

namespace Stepwise

/-- The decimal `digits · 10 ^ exponent`. -/
structure Decimal where
  digits : Nat
  exponent : Int
deriving DecidableEq, Repr

namespace Decimal

def value (d : Decimal) : Rat := (d.digits : Rat) * (10 : Rat) ^ d.exponent

/-- The exponent part of a numeral: `e` or `E`, perhaps a sign, and digits. -/
def exponentPart : List Char → Int
  | _ :: '-' :: ds => -(Text.digitsValue ds : Int)
  | _ :: '+' :: ds => Text.digitsValue ds
  | _ :: ds => Text.digitsValue ds
  | [] => 0

/-- The decimal that a numeral denotes. The numeral consists of digits, perhaps a point and
further digits, and perhaps an exponent part. -/
def ofNumeral (cs : List Char) : Decimal :=
  let whole := cs.takeWhile Text.isDigit
  match cs.dropWhile Text.isDigit with
  | '.' :: rest =>
    let fraction := rest.takeWhile Text.isDigit
    { digits := Text.digitsValue (whole ++ fraction)
      exponent := exponentPart (rest.dropWhile Text.isDigit) - fraction.length }
  | rest => { digits := Text.digitsValue whole, exponent := exponentPart rest }

/-- Moves the trailing zeros of the digits into the exponent. -/
def strip (d : Decimal) : Decimal :=
  if 0 < d.digits ∧ d.digits % 10 = 0 then strip ⟨d.digits / 10, d.exponent + 1⟩ else d
termination_by d.digits
decreasing_by omega

/-- An exponent with its sign and at least two digits. -/
def exponentText (e : Int) : List Char :=
  let ds := Nat.toDigits 10 e.natAbs
  'e' :: (if e < 0 then '-' else '+') :: (if ds.length < 2 then '0' :: ds else ds)

/-- Digits with the point behind the first `point` of them. The text is positional when the
leading digit stands for a power of ten from -4 to 15, and otherwise has an exponent. -/
def layout (ds : List Char) (point : Int) : List Char :=
  if -4 < point ∧ point ≤ 16 then
    if point ≤ 0 then '0' :: '.' :: List.replicate (-point).toNat '0' ++ ds
    else if ds.length ≤ point.toNat then
      ds ++ List.replicate (point.toNat - ds.length) '0' ++ ['.', '0']
    else ds.take point.toNat ++ '.' :: ds.drop point.toNat
  else
    match ds with
    | [] => []
    | [d] => d :: exponentText (point - 1)
    | d :: ds => d :: '.' :: ds ++ exponentText (point - 1)

def text (d : Decimal) : List Char :=
  let ds := Nat.toDigits 10 d.digits
  layout ds (ds.length + d.exponent)

end Decimal

end Stepwise
