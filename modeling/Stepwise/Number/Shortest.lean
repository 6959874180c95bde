import Stepwise.Number.Binary64

namespace Stepwise.Binary64

/-- Whether rounding the decimal gives the magnitude of `x`. -/
def readsBack (x : Binary64) (d : Decimal) : Bool :=
  (ofDecimal? false d).any fun y => y.mantissa == x.mantissa && y.exponent == x.exponent

/-- The least power of ten above a positive rational, from its binary logarithm. -/
def decimalScale (q : Rat) : Int :=
  let bits := (Nat.log2 q.num.natAbs : Int) - Nat.log2 q.den
  let guess := Int.fdiv (bits * 1233) 4096
  let tries := [guess - 1, guess, guess + 1, guess + 2]
  (tries.find? fun k => q < (10 : Rat) ^ k).getD (guess + 3)

/-- The neighbour of `x` among the decimals with `n` digits that reads back. Of two the nearer
one is taken, and of two equally near ones the even one. -/
def withDigits? (x : Binary64) (scale : Int) (n : Nat) : Option Decimal :=
  let q := x.magnitude * (10 : Rat) ^ (n - scale)
  let below := q.floor.toNat
  let lower := Decimal.strip ⟨below, scale - n⟩
  let upper := Decimal.strip ⟨below + 1, scale - n⟩
  let preferLower := 2 * q < 2 * below + 1 || (2 * q == 2 * below + 1 && below % 2 == 0)
  if x.readsBack lower && (preferLower || !x.readsBack upper) then some lower
  else if x.readsBack upper then some upper
  else none

/-- The value written out in full. -/
def exactDecimal (x : Binary64) : Decimal :=
  if 0 ≤ x.exponent then ⟨x.mantissa * Nat.pow 2 x.exponent.toNat, 0⟩
  else ⟨x.mantissa * Nat.pow 5 (-x.exponent).toNat, x.exponent⟩

/-- The decimal with the fewest digits that reads back as the magnitude of `x`. -/
def shortest (x : Binary64) : Decimal :=
  if x.mantissa = 0 then ⟨0, 0⟩
  else
    let scale := decimalScale x.magnitude
    ((List.range 17).findSome? fun n => withDigits? x scale (n + 1)).getD x.exactDecimal

def text (x : Binary64) : String :=
  String.ofList (if x.negative then '-' :: x.shortest.text else x.shortest.text)

end Stepwise.Binary64
