import Stepwise.Proofs.Number.Reading

namespace Stepwise

/-- The sign and the magnitude fix the form of a number that is not zero. -/
theorem Binary64.eq_of_magnitude {x y : Binary64} (hx : x.mantissa ≠ 0) (hy : y.mantissa ≠ 0)
    (hsign : x.negative = y.negative) (h : x.magnitude = y.magnitude) : x = y := by
  have hnearest : nearest? x.negative x.magnitude = some x := nearest?_magnitude hx x.negative
  have hnearest' : nearest? y.negative y.magnitude = some y := nearest?_magnitude hy y.negative
  rw [h, hsign, hnearest', Option.some.injEq] at hnearest
  exact hnearest.symm

namespace Number

variable {a b : Number}

theorem isNegative_of_same (h : a.same b = true) : a.isNegative = b.isNegative := by
  rw [isNegative, isNegative, same_iff.mp h]

theorem float_of_fraction {x y : Binary64} (hfraction : x.value.den ≠ 1)
    (h : x.value = y.value) : x = y := by
  have hfraction' : y.value.den ≠ 1 := h ▸ hfraction
  have hsign : x.negative = y.negative := by
    rw [← isNegative_of_fraction hfraction, ← isNegative_of_fraction hfraction']
    exact isNegative_of_same (same_iff.mpr h)
  apply Binary64.eq_of_magnitude (mantissa_ne_zero_of_fraction hfraction)
    (mantissa_ne_zero_of_fraction hfraction') hsign
  rw [Binary64.value, Binary64.value, hsign] at h
  split at h
  · exact neg_inj.mp h
  · exact h

theorem text_of_integral (h : a.value.den = 1) : a.text = toString a.value.num := by
  cases a with
  | int n => rfl
  | float x => exact if_pos h

theorem text_of_same (h : a.same b = true) : a.text = b.text := by
  have hvalue := same_iff.mp h
  by_cases hden : a.value.den = 1
  · rw [text_of_integral hden, text_of_integral (hvalue ▸ hden), hvalue]
  · cases a with
    | int n => exact absurd rfl hden
    | float x =>
      cases b with
      | int n => exact absurd (hvalue ▸ rfl) hden
      | float y => rw [float_of_fraction hden hvalue]

end Number

end Stepwise
