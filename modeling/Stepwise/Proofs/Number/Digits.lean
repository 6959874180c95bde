import Mathlib.Algebra.Group.Nat.Defs
import Mathlib.Data.List.Induction
import Stepwise.Number.Basic

namespace Stepwise.Text

theorem digitsValue_concat (ds : List Char) (c : Char) :
    digitsValue (ds ++ [c]) = 10 * digitsValue ds + (digitValue? c).getD 0 := by
  simp [digitsValue, List.foldl_append]

/-- Digits in front count for more by the number of digits behind them. -/
theorem digitsValue_append (cs ds : List Char) :
    digitsValue (cs ++ ds) = digitsValue cs * 10 ^ ds.length + digitsValue ds := by
  induction ds using List.reverseRecOn with
  | nil => simp [digitsValue]
  | append_singleton ds c ih =>
    rw [← List.append_assoc, digitsValue_concat, digitsValue_concat, ih, List.length_append,
      List.length_singleton, Nat.pow_succ]
    generalize (digitValue? c).getD 0 = v
    rw [Nat.mul_add, Nat.mul_left_comm 10, Nat.mul_comm 10, Nat.add_assoc]

theorem digitsValue_zeros (k : Nat) : digitsValue (List.replicate k '0') = 0 := by
  induction k with
  | zero => rfl
  | succ k ih =>
    rw [List.replicate_succ', digitsValue_concat, ih]
    rfl

theorem digitsValue_nines (n : Nat) : digitsValue (List.replicate n '9') + 1 = Nat.pow 10 n := by
  induction n with
  | zero => rfl
  | succ n ih =>
    have hnine : (digitValue? '9').getD 0 = 9 := by decide
    rw [List.replicate_succ', digitsValue_concat, hnine, Nat.pow_eq, Nat.pow_succ, ← Nat.pow_eq,
      ← ih]
    omega

theorem digitValue?_digitChar {d : Nat} (h : d < 10) : digitValue? d.digitChar = some d := by
  have hall : ∀ k : Fin 10, digitValue? k.val.digitChar = some k.val := by decide
  exact hall ⟨d, h⟩

theorem digitValue?_le {c : Char} {n : Nat} (h : digitValue? c = some n) : n ≤ 9 := by
  unfold digitValue? at h
  split at h
  · simp only [Option.ite_none_right_eq_some, Option.some.injEq] at h
    obtain ⟨⟨-, hnine⟩, rfl⟩ := h
    have hbound : c.toNat ≤ 57 := hnine
    omega
  · obtain ⟨z, hz, rfl⟩ := Option.map_eq_some_iff.mp h
    have hplace := List.find?_some hz
    simp only [Bool.and_eq_true, decide_eq_true_eq] at hplace
    omega

/-- A row of digits denotes less than the next power of ten. -/
theorem digitsValue_lt (cs : List Char) : digitsValue cs < Nat.pow 10 cs.length := by
  induction cs using List.reverseRecOn with
  | nil => decide
  | append_singleton cs c ih =>
    have hdigit : (digitValue? c).getD 0 ≤ 9 := by
      cases h : digitValue? c with
      | none => simp
      | some n => simpa using digitValue?_le h
    rw [digitsValue_concat, List.length_append, List.length_singleton, Nat.pow_eq, Nat.pow_succ,
      ← Nat.pow_eq]
    omega

theorem digitsValue_lt_of_length {cs : List Char} {n : Nat} (h : cs.length ≤ n) :
    digitsValue cs < Nat.pow 10 n :=
  Nat.lt_of_lt_of_le (digitsValue_lt cs) (Nat.pow_le_pow_right (by decide) h)

theorem length_toDigits_le_iff {n k : Nat} (hk : 0 < k) :
    (Nat.toDigits 10 n).length ≤ k ↔ n < Nat.pow 10 k :=
  Nat.length_toDigits_le_iff (by decide) hk

theorem digitsValue_toDigits (n : Nat) : digitsValue (Nat.toDigits 10 n) = n := by
  induction n using Nat.strongRecOn with
  | _ n ih =>
    by_cases hn : n < 10
    · rw [Nat.toDigits_of_lt_base hn]
      simp [digitsValue, digitValue?_digitChar hn]
    · rw [Nat.toDigits_of_base_le (by decide) (by omega), digitsValue_concat,
        ih (n / 10) (by omega), digitValue?_digitChar (Nat.mod_lt n (by decide))]
      simp only [Option.getD_some]
      omega

theorem isDigit_of_mem_toDigits {n : Nat} {c : Char} (h : c ∈ Nat.toDigits 10 n) :
    isDigit c = true := by
  induction n using Nat.strongRecOn with
  | _ n ih =>
    by_cases hn : n < 10
    · rw [Nat.toDigits_of_lt_base hn, List.mem_singleton] at h
      simp [h, isDigit, digitValue?_digitChar hn]
    · rw [Nat.toDigits_of_base_le (by decide) (by omega)] at h
      rcases List.mem_append.mp h with h | h
      · exact ih (n / 10) (by omega) h
      · rw [List.mem_singleton] at h
        simp [h, isDigit, digitValue?_digitChar (Nat.mod_lt n (by decide))]

end Stepwise.Text
