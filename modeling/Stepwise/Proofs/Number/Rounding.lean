import Mathlib.Algebra.Order.Field.Power
import Mathlib.Algebra.Order.Ring.Rat
import Mathlib.Tactic.Linarith
import Mathlib.Tactic.NormNum
import Mathlib.Tactic.Positivity
import Stepwise.Number.Shortest

namespace Stepwise.Binary64

/-- The binary logarithm of a positive rational, up to one. -/
def logarithm (q : Rat) : Int := (Nat.log2 q.num.natAbs : Int) - Nat.log2 q.den

theorem logarithm_bounds {q : Rat} (hq : 0 < q) :
    (2 : Rat) ^ (logarithm q - 1) < q ∧ q < (2 : Rat) ^ (logarithm q + 1) := by
  have hn : q.num.natAbs ≠ 0 := by
    have := Rat.num_pos.mpr hq
    omega
  have hd : 0 < (q.den : Rat) := by exact_mod_cast q.den_pos
  have hmul : q * q.den = (q.num.natAbs : Rat) := by
    have hnum : (q.num.natAbs : Int) = q.num := Int.natAbs_of_nonneg (Rat.num_pos.mpr hq).le
    rw [Rat.mul_den_eq_num, ← Int.cast_natCast, hnum]
  have hnl : (2 : Rat) ^ (Nat.log2 q.num.natAbs : Int) ≤ q.num.natAbs := by
    exact_mod_cast Nat.log2_self_le hn
  have hnu : (q.num.natAbs : Rat) < (2 : Rat) ^ ((Nat.log2 q.num.natAbs : Int) + 1) := by
    exact_mod_cast Nat.lt_log2_self
  have hdl : (2 : Rat) ^ (Nat.log2 q.den : Int) ≤ q.den := by
    exact_mod_cast Nat.log2_self_le q.den_nz
  have hdu : (q.den : Rat) < (2 : Rat) ^ ((Nat.log2 q.den : Int) + 1) := by
    exact_mod_cast Nat.lt_log2_self
  constructor
  · apply lt_of_mul_lt_mul_right _ hd.le
    calc (2 : Rat) ^ (logarithm q - 1) * q.den
        < (2 : Rat) ^ (logarithm q - 1) * (2 : Rat) ^ ((Nat.log2 q.den : Int) + 1) :=
          mul_lt_mul_of_pos_left hdu (by positivity)
      _ = (2 : Rat) ^ (Nat.log2 q.num.natAbs : Int) := by
          rw [← zpow_add₀ (by norm_num), logarithm]
          congr 1
          omega
      _ ≤ q * q.den := hmul ▸ hnl
  · apply lt_of_mul_lt_mul_right _ hd.le
    calc q * q.den < (2 : Rat) ^ ((Nat.log2 q.num.natAbs : Int) + 1) := hmul ▸ hnu
      _ = (2 : Rat) ^ (logarithm q + 1) * (2 : Rat) ^ (Nat.log2 q.den : Int) := by
          rw [← zpow_add₀ (by norm_num), logarithm]
          congr 1
          omega
      _ ≤ (2 : Rat) ^ (logarithm q + 1) * q.den := mul_le_mul_of_nonneg_left hdl (by positivity)

theorem exponentFor_eq {q : Rat} {e : Int} (hq : 0 < q) (low : -1074 ≤ e)
    (above : q < (2 : Rat) ^ (e + 53)) (below : e = -1074 ∨ (2 : Rat) ^ (e + 52) ≤ q) :
    exponentFor q = e := by
  have two : (1 : Rat) < 2 := by norm_num
  obtain ⟨hl, hu⟩ := logarithm_bounds hq
  have hle : logarithm q - 1 < e + 53 := (zpow_lt_zpow_iff_right₀ two).mp (hl.trans above)
  have hge : e = -1074 ∨ e + 52 < logarithm q + 1 :=
    below.imp_right fun h => (zpow_lt_zpow_iff_right₀ two).mp (h.trans_lt hu)
  unfold exponentFor
  change (if q < (2 : Rat) ^ (max (logarithm q - 53) (-1074) + 53) then
    max (logarithm q - 53) (-1074) else max (logarithm q - 53) (-1074) + 1) = e
  -- the estimate is right or one too small
  rcases (show max (logarithm q - 53) (-1074) = e ∨
      (-1074 < e ∧ max (logarithm q - 53) (-1074) = e - 1) by omega) with h | ⟨hgt, h⟩
  · rw [h, if_pos above]
  · have hq2 : (2 : Rat) ^ (e - 1 + 53) ≤ q := by
      rw [show e - 1 + 53 = e + 52 by omega]
      exact below.resolve_left (by omega)
    rw [h, if_neg hq2.not_gt]
    omega

theorem le_exponentFor (q : Rat) : logarithm q - 53 ≤ exponentFor q := by
  unfold exponentFor
  change logarithm q - 53 ≤ if q < (2 : Rat) ^ (max (logarithm q - 53) (-1074) + 53) then
    max (logarithm q - 53) (-1074) else max (logarithm q - 53) (-1074) + 1
  split <;> omega

theorem roundEven_natCast (n : Nat) : roundEven n = n := by
  have hf : (n : Rat).floor.toNat = n := by
    rw [← Int.cast_natCast, Rat.floor_intCast, Int.toNat_natCast]
  unfold roundEven
  rw [hf, if_pos (Or.inl (by linarith))]

theorem roundEven_of_small {q : Rat} (h0 : 0 ≤ q) (h : q < 1 / 2) : roundEven q = 0 := by
  have hf : q.floor = 0 := by
    apply le_antisymm
    · exact Int.lt_add_one_iff.mp (Rat.floor_lt_iff.mpr (by norm_num; linarith))
    · exact Rat.le_floor_iff.mpr (by exact_mod_cast h0)
  unfold roundEven
  rw [hf, if_pos (Or.inl (by norm_num; linarith))]
  rfl

theorem magnitude_nonneg (x : Binary64) : 0 ≤ x.magnitude := by
  unfold magnitude
  positivity

theorem magnitude_pos {x : Binary64} (h : x.mantissa ≠ 0) : 0 < x.magnitude := by
  have hm : (0 : Rat) < x.mantissa := by exact_mod_cast Nat.pos_of_ne_zero h
  unfold magnitude
  positivity

theorem exponentFor_magnitude {x : Binary64} (h : x.mantissa ≠ 0) :
    exponentFor x.magnitude = x.exponent := by
  obtain ⟨hlt, hlow, -, hnorm⟩ := x.canonical
  apply exponentFor_eq (magnitude_pos h) hlow
  · unfold magnitude
    rw [add_comm, zpow_add₀ (by norm_num)]
    apply mul_lt_mul_of_pos_right _ (by positivity)
    exact_mod_cast hlt
  · rcases hnorm with hn | hn
    · right
      unfold magnitude
      rw [add_comm, zpow_add₀ (by norm_num)]
      apply mul_le_mul_of_nonneg_right _ (by positivity)
      exact_mod_cast hn
    · exact Or.inl hn

/-- A number that is not zero is its own nearest number. -/
theorem nearest?_magnitude {x : Binary64} (h : x.mantissa ≠ 0) (s : Bool) :
    nearest? s x.magnitude = some { x with negative := s } := by
  have hr : roundEven (x.magnitude * (2 : Rat) ^ (-x.exponent)) = x.mantissa := by
    unfold magnitude
    rw [mul_assoc, ← zpow_add₀ (by norm_num), add_neg_cancel, zpow_zero, mul_one,
      roundEven_natCast]
  unfold nearest?
  rw [if_neg (magnitude_pos h).ne']
  simp only [exponentFor_magnitude h, hr]
  rw [dif_pos x.canonical]

theorem nearest?_of_large {q : Rat} (h : (2 : Rat) ^ (1025 : Int) ≤ q) (s : Bool) :
    nearest? s q = none := by
  have hpos : 0 < q := lt_of_lt_of_le (by positivity) h
  have hlog : (1025 : Int) < logarithm q + 1 :=
    (zpow_lt_zpow_iff_right₀ (by norm_num : (1 : Rat) < 2)).mp
      (h.trans_lt (logarithm_bounds hpos).2)
  have he := le_exponentFor q
  unfold nearest?
  rw [if_neg hpos.ne']
  simp only
  rw [dif_neg (by rintro ⟨-, -, hhigh, -⟩; omega), dif_neg (by rintro ⟨-, -, -, hhigh, -⟩; omega)]

theorem nearest?_of_small {q : Rat} (h0 : 0 ≤ q) (h : q < (2 : Rat) ^ (-1100 : Int)) (s : Bool) :
    nearest? s q = some (zero s) := by
  rcases h0.eq_or_lt with h0 | hpos
  · simp [nearest?, ← h0]
  have he : exponentFor q = -1074 :=
    exponentFor_eq hpos (by omega)
      (h.trans (zpow_lt_zpow_right₀ (by norm_num) (by norm_num))) (Or.inl rfl)
  have hq : q * (2 : Rat) ^ (1074 : Int) < 1 / 2 := by
    calc q * (2 : Rat) ^ (1074 : Int) < (2 : Rat) ^ (-1100 : Int) * (2 : Rat) ^ (1074 : Int) :=
          mul_lt_mul_of_pos_right h (by positivity)
      _ = (2 : Rat) ^ (-26 : Int) := by rw [← zpow_add₀ (by norm_num)]; rfl
      _ < 1 / 2 := by norm_num
  unfold nearest?
  rw [if_neg hpos.ne']
  simp only [he, neg_neg, roundEven_of_small (by positivity) hq]
  rfl

theorem negative_of_nearest? {s : Bool} {q : Rat} {y : Binary64} (h : nearest? s q = some y) :
    y.negative = s := by
  unfold nearest? at h
  simp only at h
  split at h
  · cases h
    rfl
  split at h
  · cases h
    rfl
  split at h
  · cases h
    rfl
  · cases h

theorem negative_of_ofDecimal? {s : Bool} {d : Decimal} {y : Binary64}
    (h : ofDecimal? s d = some y) : y.negative = s := by
  unfold ofDecimal? at h
  split at h
  · cases h
    rfl
  split at h
  · cases h
  split at h
  · cases h
    rfl
  · exact negative_of_nearest? h

theorem large_of_exponent {d : Decimal} (hd : d.digits ≠ 0) (h : 400 < d.exponent) :
    (2 : Rat) ^ (1025 : Int) ≤ d.value := by
  have hd1 : (1 : Rat) ≤ d.digits := by exact_mod_cast Nat.one_le_iff_ne_zero.mpr hd
  calc (2 : Rat) ^ (1025 : Int) ≤ (2 : Rat) ^ (3 * 401 : Int) :=
        zpow_le_zpow_right₀ (by norm_num) (by norm_num)
    _ = ((2 : Rat) ^ (3 : Int)) ^ (401 : Int) := zpow_mul _ _ _
    _ ≤ (10 : Rat) ^ (401 : Int) := zpow_le_zpow_left₀ (by norm_num) (by norm_num) (by norm_num)
    _ ≤ (10 : Rat) ^ d.exponent := zpow_le_zpow_right₀ (by norm_num) (by omega)
    _ ≤ d.value := le_mul_of_one_le_left (by positivity) hd1

theorem small_of_exponent {d : Decimal} (h : Nat.log2 d.digits + 1 + 3 * d.exponent < -1100) :
    d.value < (2 : Rat) ^ (-1100 : Int) := by
  have hu : (d.digits : Rat) < (2 : Rat) ^ ((Nat.log2 d.digits : Int) + 1) := by
    exact_mod_cast Nat.lt_log2_self
  have he : (10 : Rat) ^ d.exponent ≤ (2 : Rat) ^ (3 * d.exponent) := by
    obtain ⟨k, hk⟩ : ∃ k : Nat, d.exponent = -k := ⟨d.exponent.natAbs, by omega⟩
    rw [hk, zpow_mul]
    simp only [zpow_neg, zpow_natCast]
    apply inv_anti₀ (by positivity)
    exact pow_le_pow_left₀ (by norm_num) (by norm_num) k
  calc d.value < (2 : Rat) ^ ((Nat.log2 d.digits : Int) + 1) * (10 : Rat) ^ d.exponent :=
        mul_lt_mul_of_pos_right hu (by positivity)
    _ ≤ (2 : Rat) ^ ((Nat.log2 d.digits : Int) + 1) * (2 : Rat) ^ (3 * d.exponent) :=
        mul_le_mul_of_nonneg_left he (by positivity)
    _ = (2 : Rat) ^ ((Nat.log2 d.digits : Int) + 1 + 3 * d.exponent) := by
        rw [← zpow_add₀ (by norm_num)]
    _ < (2 : Rat) ^ (-1100 : Int) := zpow_lt_zpow_right₀ (by norm_num) (by omega)

/-- What is not multiplied out is beyond the range on its side. -/
theorem ofDecimal?_eq_nearest? (s : Bool) (d : Decimal) :
    ofDecimal? s d = nearest? s d.value := by
  unfold ofDecimal?
  split
  · rename_i h
    simp [nearest?, Decimal.value, h]
  rename_i hd
  split
  · rename_i h
    rw [nearest?_of_large (large_of_exponent hd h)]
  split
  · rename_i h
    rw [nearest?_of_small (by unfold Decimal.value; positivity) (small_of_exponent h)]
  · rfl

theorem readsBack_iff {x : Binary64} {d : Decimal} :
    x.readsBack d = true ↔ ofDecimal? false d = some { x with negative := false } := by
  unfold readsBack
  cases hy : ofDecimal? false d with
  | none => simp
  | some y =>
    have hs : y.negative = false := by
      rw [ofDecimal?_eq_nearest?] at hy
      exact negative_of_nearest? hy
    obtain ⟨negative, m, e, _⟩ := y
    simp only at hs
    simp [hs]

theorem value_exactDecimal (x : Binary64) : x.exactDecimal.value = x.magnitude := by
  unfold exactDecimal magnitude
  split
  · rename_i h
    obtain ⟨k, hk⟩ := Int.eq_ofNat_of_zero_le h
    simp [Decimal.value, hk]
  · rename_i h
    obtain ⟨k, hk⟩ : ∃ k : Nat, x.exponent = -k := ⟨x.exponent.natAbs, by omega⟩
    simp only [Decimal.value, hk, neg_neg, Int.toNat_natCast, Nat.pow_eq, Nat.cast_mul,
      Nat.cast_pow, Nat.cast_ofNat, zpow_neg, zpow_natCast]
    have hten : (10 : Rat) ^ k = (5 : Rat) ^ k * (2 : Rat) ^ k := by
      rw [← mul_pow]
      norm_num
    rw [mul_assoc, hten,
      mul_inv, mul_inv_cancel_left₀ (by positivity)]

theorem readsBack_of_withDigits? {x : Binary64} {scale : Int} {n : Nat} {d : Decimal}
    (h : withDigits? x scale n = some d) : x.readsBack d = true := by
  unfold withDigits? at h
  simp only at h
  split at h
  · rename_i hb
    cases h
    simp only [Bool.and_eq_true] at hb
    exact hb.1
  split at h
  · rename_i hb
    cases h
    exact hb
  · cases h

theorem readsBack_shortest (x : Binary64) : x.readsBack x.shortest = true := by
  unfold shortest
  split
  · rename_i h
    have he : x.exponent = -1074 := by
      rcases x.canonical.2.2.2 with hn | hn
      · rw [h] at hn
        exact absurd hn (by decide)
      · exact hn
    simp [readsBack, ofDecimal?, zero, h, he]
  · rename_i h
    cases hf : (List.range 17).findSome? fun n =>
        withDigits? x (decimalScale x.magnitude) (n + 1) with
    | some d =>
      obtain ⟨n, -, hn⟩ := List.exists_of_findSome?_eq_some hf
      simpa [hf] using readsBack_of_withDigits? hn
    | none =>
      simp only [hf, Option.getD_none, readsBack_iff]
      rw [ofDecimal?_eq_nearest?, value_exactDecimal, nearest?_magnitude h]

end Stepwise.Binary64
