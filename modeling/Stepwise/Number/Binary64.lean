import Stepwise.Number.Decimal

namespace Stepwise

/-- The mantissa has 53 bits, or fewer at the least exponent; so every magnitude has one form. -/
def Binary64.Canonical (mantissa : Nat) (exponent : Int) : Prop :=
  mantissa < Nat.pow 2 53 ∧ -1074 ≤ exponent ∧ exponent ≤ 971 ∧
    (Nat.pow 2 52 ≤ mantissa ∨ exponent = -1074)

instance (m : Nat) (e : Int) : Decidable (Binary64.Canonical m e) := by
  unfold Binary64.Canonical; exact inferInstance

/-- The number `± mantissa · 2 ^ exponent`. -/
structure Binary64 where
  negative : Bool
  mantissa : Nat
  exponent : Int
  canonical : Binary64.Canonical mantissa exponent
deriving DecidableEq

namespace Binary64

def zero (negative : Bool) : Binary64 := ⟨negative, 0, -1074, by decide⟩

def neg (x : Binary64) : Binary64 := { x with negative := !x.negative }

def magnitude (x : Binary64) : Rat := (x.mantissa : Rat) * (2 : Rat) ^ x.exponent

def value (x : Binary64) : Rat := if x.negative then -x.magnitude else x.magnitude

/-- The nearest natural number; a half goes to the even neighbour. -/
def roundEven (q : Rat) : Nat :=
  let n := q.floor.toNat
  if 2 * q < 2 * n + 1 ∨ (2 * q = 2 * n + 1 ∧ n % 2 = 0) then n else n + 1

/-- The least exponent, but not below -1074, at which a positive rational has a mantissa of at
most 53 bits. The binary logarithms fix it up to one. -/
def exponentFor (q : Rat) : Int :=
  let low := max ((Nat.log2 q.num.natAbs : Int) - Nat.log2 q.den - 53) (-1074)
  if q < (2 : Rat) ^ (low + 53) then low else low + 1

/-- The number nearest to a rational of the given sign and magnitude, unless it would exceed the
largest one. -/
def nearest? (negative : Bool) (q : Rat) : Option Binary64 :=
  if q = 0 then some (zero negative)
  else
    let e := exponentFor q
    let m := roundEven (q * (2 : Rat) ^ (-e))
    if h : Canonical m e then some ⟨negative, m, e, h⟩
    else if h : m = Nat.pow 2 53 ∧ Canonical (Nat.pow 2 52) (e + 1) then
      some ⟨negative, Nat.pow 2 52, e + 1, h.2⟩
    else none

/-- The number nearest to a decimal. A decimal whose exponent alone puts it beyond either end of
the range is not multiplied out. -/
def ofDecimal? (negative : Bool) (d : Decimal) : Option Binary64 :=
  if d.digits = 0 then some (zero negative)
  else if 400 < d.exponent then none
  else if Nat.log2 d.digits + 1 + 3 * d.exponent < -1100 then some (zero negative)
  else nearest? negative d.value

end Binary64

end Stepwise
