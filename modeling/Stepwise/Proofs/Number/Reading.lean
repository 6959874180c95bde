import Stepwise.Proofs.Number.Numeral

namespace Stepwise.Number

/-- The constant that the text of a constant is read as. -/
def asRead : Number → Number
  | .int n => .int n
  | .float x => if x.value.den = 1 then .int x.value.num else .float x

theorem value_asRead (a : Number) : a.asRead.value = a.value := by
  cases a with
  | int n => rfl
  | float x =>
    by_cases h : x.value.den = 1
    · simp only [asRead, h, if_true]
      exact Rat.coe_int_num_of_den_eq_one h
    · simp only [asRead, h, if_false]

/-- An integer with no more digits than are read as one. -/
def HasFewDigits (n : Nat) : Prop := (Nat.toDigits 10 n).length ≤ maxIntDigits

theorem hasFewDigits_iff {n : Nat} : HasFewDigits n ↔ n < Nat.pow 10 maxIntDigits :=
  Text.length_toDigits_le_iff (by decide)

theorem hasFewDigits_zero : HasFewDigits 0 := by
  unfold HasFewDigits
  decide

theorem ofNumeral?_toDigits {n : Nat} (h : HasFewDigits n) :
    ofNumeral? (Nat.toDigits 10 n) = some (.int n) := by
  have hall : (Nat.toDigits 10 n).all Text.isDigit = true :=
    List.all_eq_true.mpr fun c => Text.isDigit_of_mem_toDigits
  unfold ofNumeral?
  rw [if_pos ⟨hall, h⟩, Text.digitsValue_toDigits]

/-- What is read as an integer has no more digits than that. -/
theorem hasFewDigits_of_ofNumeral? {cs : List Char} {n : Int}
    (h : ofNumeral? cs = some (.int n)) : HasFewDigits n.toNat := by
  unfold ofNumeral? at h
  split at h
  · rename_i hdigits
    cases h
    exact hasFewDigits_iff.mpr (Text.digitsValue_lt_of_length hdigits.2)
  · obtain ⟨x, -, hx⟩ := Option.map_eq_some_iff.mp h
    cases hx

theorem hasFewDigits_of_lt_intBound {n : Nat} (h : n < intBound) : HasFewDigits n := by
  have hbound : Nat.ble intBound (Nat.pow 10 maxIntDigits) = true := by decide +kernel
  exact hasFewDigits_iff.mpr (Nat.lt_of_lt_of_le h (Nat.le_of_ble_eq_true hbound))

/-- A numeral with a point or an exponent is no row of digits. -/
theorem not_all_isDigit {n : Numeral} (h : n.fraction ≠ none ∨ n.exponent ≠ none) :
    n.text.all Text.isDigit = false := by
  apply List.all_eq_false.mpr
  rcases h with h | h
  · obtain ⟨f, hf⟩ := Option.ne_none_iff_exists'.mp h
    exact ⟨'.', by simp [Numeral.text, Numeral.fractionText, hf], by decide⟩
  · obtain ⟨e, he⟩ := Option.ne_none_iff_exists'.mp h
    obtain ⟨ds, -, -, -, ht⟩ := Decimal.exponentText_eq e
    exact ⟨'e', by simp [Numeral.text, Numeral.exponentText, he, ht], by decide⟩

theorem exists_numeral_shortest (x : Binary64) : ∃ n : Numeral, n.text = x.shortest.text ∧
    ofNumeral? n.text = some (.float { x with negative := false }) := by
  obtain ⟨n, ht, hv, hn⟩ := Decimal.exists_numeral_text x.shortest
  refine ⟨n, ht, ?_⟩
  have hread := Binary64.readsBack_iff.mp (Binary64.readsBack_shortest x)
  rw [Binary64.ofDecimal?_eq_nearest?] at hread
  unfold ofNumeral?
  rw [if_neg (by simp [not_all_isDigit hn]), Decimal.ofNumeral_text,
    Binary64.ofDecimal?_eq_nearest?, hv, hread]
  rfl

theorem exists_numeral_int {n : Int} (h : n.natAbs < intBound) : ∃ m : Numeral,
    (toString n).toList = (if n < 0 then '-' :: m.text else m.text) ∧
      ofNumeral? m.text = some (.int n.natAbs) := by
  refine ⟨⟨Nat.toDigits 10 n.natAbs, none, none, by simp,
    fun c hc => Text.isDigit_of_mem_toDigits (by simpa using hc)⟩, ?_, ?_⟩
  · simp only [Numeral.text, Numeral.fractionText, Numeral.exponentText, Option.map_none,
      Option.getD_none, List.append_nil]
    rw [Int.toString_eq_repr, Int.repr_eq_if]
    by_cases hn : n < 0
    · rw [if_neg (by omega), if_pos hn, show (-n).toNat = n.natAbs by omega]
      simp
    · rw [if_pos (by omega), if_neg hn, show n.toNat = n.natAbs by omega]
      simp
  · simpa [Numeral.text, Numeral.fractionText, Numeral.exponentText] using
      ofNumeral?_toDigits (hasFewDigits_of_lt_intBound h)

theorem magnitude_lt {x : Binary64} {m k b : Nat} (hm : x.mantissa ≤ m) (he : x.exponent ≤ k)
    (hb : m * Nat.pow 2 k < b) : x.magnitude < b := by
  calc x.magnitude ≤ (m : Rat) * (2 : Rat) ^ (k : Int) := by
        unfold Binary64.magnitude
        exact mul_le_mul (by exact_mod_cast hm) (zpow_le_zpow_right₀ (by norm_num) he)
          (by positivity) (by positivity)
    _ = (m * Nat.pow 2 k : Nat) := by
        rw [zpow_natCast, Nat.pow_eq, Nat.cast_mul, Nat.cast_pow, Nat.cast_ofNat]
    _ < b := by exact_mod_cast hb

theorem magnitude_lt_intBound (x : Binary64) : x.magnitude < (intBound : Nat) := by
  refine magnitude_lt (m := Nat.pow 2 53 - 1) (k := 971) ?_ ?_ ?_
  · exact Nat.le_sub_one_of_lt x.canonical.1
  · exact x.canonical.2.2.1
  · decide +kernel

theorem natAbs_num_lt_intBound {x : Binary64} (h : x.value.den = 1) :
    x.value.num.natAbs < intBound := by
  have hv : (x.value.num : Rat) = x.value := Rat.coe_int_num_of_den_eq_one h
  have habs : |x.value| = x.magnitude := by
    have hpos : 0 ≤ x.magnitude := by
      unfold Binary64.magnitude
      positivity
    unfold Binary64.value
    split
    · rw [abs_neg, abs_of_nonneg hpos]
    · rw [abs_of_nonneg hpos]
  have hlt : ((x.value.num.natAbs : Nat) : Rat) < (intBound : Nat) := by
    rw [Nat.cast_natAbs, Int.cast_abs, hv, habs]
    exact magnitude_lt_intBound x
  exact_mod_cast hlt

theorem inRange_asRead {a : Number} (h : a.inRange = true) : a.asRead.inRange = true := by
  cases a with
  | int n => exact h
  | float x =>
    by_cases hd : x.value.den = 1
    · simpa only [asRead, hd, if_true, inRange, decide_eq_true_eq] using natAbs_num_lt_intBound hd
    · simp only [asRead, hd, if_false, inRange]

theorem signed_natAbs (n : Int) :
    (if n < 0 then neg (.int n.natAbs) else .int n.natAbs) = .int n := by
  split
  · rename_i h
    rw [neg, Int.ofNat_natAbs_of_nonpos h.le, neg_neg]
  · rename_i h
    rw [Int.natAbs_of_nonneg (not_lt.mp h)]

theorem isNegative_iff {a : Number} : a.isNegative = true ↔ a.value < 0 := by simp [isNegative]

/-- A numeral denotes no negative number. -/
theorem isNegative_of_ofNumeral? {cs : List Char} {a : Number}
    (h : ofNumeral? cs = some a) : a.isNegative = false := by
  unfold ofNumeral? at h
  split at h
  · cases h
    simp [isNegative, value]
  · obtain ⟨x, hx, rfl⟩ := Option.map_eq_some_iff.mp h
    have hsign : x.negative = false := Binary64.negative_of_ofDecimal? hx
    simp [isNegative, value, Binary64.value, hsign, x.magnitude_nonneg]

theorem mantissa_ne_zero_of_fraction {x : Binary64} (h : x.value.den ≠ 1) : x.mantissa ≠ 0 := by
  intro hm
  apply h
  simp [Binary64.value, Binary64.magnitude, hm]

/-- A fraction is negative exactly if its sign says so. -/
theorem isNegative_of_fraction {x : Binary64} (h : x.value.den ≠ 1) :
    (Number.float x).isNegative = x.negative := by
  have hpos := Binary64.magnitude_pos (mantissa_ne_zero_of_fraction h)
  rw [Bool.eq_iff_iff, isNegative_iff]
  cases hs : x.negative with
  | true => simpa [value, Binary64.value, hs] using hpos
  | false => simpa [value, Binary64.value, hs] using hpos.le

/-- The text of a constant is a numeral, behind a minus sign if the constant is negative. -/
theorem exists_numeral_text {a : Number} (h : a.inRange = true) : ∃ (n : Numeral) (b : Number),
    a.text.toList = (if a.isNegative then '-' :: n.text else n.text) ∧
      ofNumeral? n.text = some b ∧ a.asRead = if a.isNegative then b.neg else b := by
  -- a constant whose text is that of an integer
  have hint {n : Int} (hn : n.natAbs < intBound) (hv : a.value = n) (ht : a.text = toString n)
      (hr : a.asRead = .int n) : ∃ (m : Numeral) (b : Number),
      a.text.toList = (if a.isNegative then '-' :: m.text else m.text) ∧
        ofNumeral? m.text = some b ∧ a.asRead = if a.isNegative then b.neg else b := by
    obtain ⟨m, hm, hread⟩ := exists_numeral_int hn
    have hneg : a.isNegative = true ↔ n < 0 := by
      rw [isNegative_iff, hv]
      exact Int.cast_lt_zero
    refine ⟨m, .int n.natAbs, ?_, hread, ?_⟩
    · rw [ht, hm]
      simp only [hneg]
    · rw [hr, ← signed_natAbs n]
      simp only [hneg]
  cases a with
  | int n => exact hint (by simpa [inRange] using h) rfl rfl rfl
  | float x =>
    by_cases hd : x.value.den = 1
    · exact hint (natAbs_num_lt_intBound hd) (Rat.coe_int_num_of_den_eq_one hd).symm
        (by simp only [text, hd, if_true]) (by simp only [asRead, hd, if_true])
    · obtain ⟨n, ht, hr⟩ := exists_numeral_shortest x
      refine ⟨n, _, ?_, hr, ?_⟩
      · rw [isNegative_of_fraction hd, ht]
        simp only [text, hd, if_false, Binary64.text, String.toList_ofList]
      · rw [isNegative_of_fraction hd]
        simp only [asRead, hd, if_false]
        cases hs : x.negative <;> cases x <;> simp_all [neg, Binary64.neg]

end Stepwise.Number
