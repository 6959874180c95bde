import Stepwise.Proofs.Number.Digits
import Stepwise.Proofs.Number.Rounding

namespace Stepwise

/-- A numeral in its parts: digits, perhaps digits behind a point, perhaps an exponent. -/
structure Numeral where
  whole : List Char
  fraction : Option (List Char) := none
  exponent : Option Int := none
  nonempty : whole ≠ []
  digits : ∀ c ∈ whole ++ fraction.getD [], Text.isDigit c = true

namespace Numeral

def fractionText (n : Numeral) : List Char := (n.fraction.map ('.' :: ·)).getD []

def exponentText (n : Numeral) : List Char := (n.exponent.map Decimal.exponentText).getD []

def text (n : Numeral) : List Char := n.whole ++ n.fractionText ++ n.exponentText

def decimal (n : Numeral) : Decimal :=
  { digits := Text.digitsValue (n.whole ++ n.fraction.getD [])
    exponent := n.exponent.getD 0 - (n.fraction.getD []).length }

theorem whole_digits (n : Numeral) : ∀ c ∈ n.whole, Text.isDigit c = true :=
  fun c hc => n.digits c (List.mem_append_left _ hc)

theorem fraction_digits {n : Numeral} {f : List Char} (h : n.fraction = some f) :
    ∀ c ∈ f, Text.isDigit c = true :=
  fun c hc => n.digits c (List.mem_append_right _ (by simpa [h] using hc))

end Numeral

namespace Decimal

/-- The exponent's digits behind its letter and its sign. -/
theorem exponentText_eq (e : Int) : ∃ ds : List Char, ds ≠ [] ∧
    (∀ c ∈ ds, Text.isDigit c = true) ∧ Text.digitsValue ds = e.natAbs ∧
    exponentText e = 'e' :: (if e < 0 then '-' else '+') :: ds := by
  by_cases hl : (Nat.toDigits 10 e.natAbs).length < 2
  · refine ⟨'0' :: Nat.toDigits 10 e.natAbs, by simp, ?_, ?_, by simp [exponentText, hl]⟩
    · intro c hc
      rcases List.mem_cons.mp hc with rfl | hc
      · decide
      · exact Text.isDigit_of_mem_toDigits hc
    · rw [← List.singleton_append, Text.digitsValue_append, Text.digitsValue_toDigits]
      simp [show Text.digitsValue ['0'] = 0 from rfl]
  · exact ⟨Nat.toDigits 10 e.natAbs, by simp, fun c => Text.isDigit_of_mem_toDigits,
      Text.digitsValue_toDigits _, by simp [exponentText, hl]⟩

theorem exponentPart_exponentText (e : Int) : exponentPart (exponentText e) = e := by
  obtain ⟨ds, -, -, hv, he⟩ := exponentText_eq e
  rw [he]
  by_cases hneg : e < 0
  · simp only [hneg, if_true, exponentPart, hv]
    omega
  · simp only [hneg, if_false, exponentPart, hv]
    omega

theorem span_digits {ds rest : List Char} (h : ∀ c ∈ ds, Text.isDigit c = true)
    (hr : ∀ c ∈ rest.head?, Text.isDigit c = false) :
    (ds ++ rest).takeWhile Text.isDigit = ds ∧ (ds ++ rest).dropWhile Text.isDigit = rest := by
  rw [List.takeWhile_append_of_pos h, List.dropWhile_append_of_pos h]
  cases rest with
  | nil => simp
  | cons c rest => simp [hr c rfl]

/-- What may stand behind the digits of a numeral. -/
theorem exponentText_cases (n : Numeral) : n.exponentText = [] ∨
    ∃ (sign : Char) (ds : List Char), (sign = '+' ∨ sign = '-') ∧ ds ≠ [] ∧
      (∀ c ∈ ds, Text.isDigit c = true) ∧ n.exponentText = 'e' :: sign :: ds := by
  unfold Numeral.exponentText
  cases n.exponent with
  | none => exact Or.inl rfl
  | some e =>
    obtain ⟨ds, hne, hd, -, ht⟩ := exponentText_eq e
    refine Or.inr ⟨if e < 0 then '-' else '+', ds, ?_, hne, hd, ht⟩
    split
    · exact Or.inr rfl
    · exact Or.inl rfl

theorem isDigit_head_exponentText (n : Numeral) :
    ∀ c ∈ n.exponentText.head?, Text.isDigit c = false := by
  rcases exponentText_cases n with h | ⟨sign, ds, -, -, -, h⟩
  · simp [h]
  · simp [h, show Text.isDigit 'e' = false by decide]

theorem exponentPart_text (n : Numeral) : exponentPart n.exponentText = n.exponent.getD 0 := by
  unfold Numeral.exponentText
  cases n.exponent with
  | none => rfl
  | some e => exact exponentPart_exponentText e

theorem ofNumeral_text (n : Numeral) : ofNumeral n.text = n.decimal := by
  unfold ofNumeral
  cases hf : n.fraction with
  | none =>
    have ht : n.text = n.whole ++ n.exponentText := by simp [Numeral.text, Numeral.fractionText, hf]
    obtain ⟨htake, hdrop⟩ := span_digits n.whole_digits (isDigit_head_exponentText n)
    rw [ht, htake, hdrop]
    simp only [Numeral.decimal, hf, Option.getD_none, List.append_nil, List.length_nil,
      ← exponentPart_text]
    split
    · rename_i rest he
      rcases exponentText_cases n with h | ⟨sign, ds, -, -, -, h⟩
      · simp [h] at he
      · simp [h] at he
    · simp
  | some f =>
    have ht : n.text = n.whole ++ '.' :: (f ++ n.exponentText) := by
      simp [Numeral.text, Numeral.fractionText, hf]
    have hpoint : ∀ c ∈ ('.' :: (f ++ n.exponentText)).head?, Text.isDigit c = false := by
      simp [show Text.isDigit '.' = false by decide]
    obtain ⟨htake, hdrop⟩ := span_digits n.whole_digits hpoint
    obtain ⟨hftake, hfdrop⟩ :=
      span_digits (Numeral.fraction_digits hf) (isDigit_head_exponentText n)
    rw [ht, htake, hdrop]
    simp only [hftake, hfdrop, Numeral.decimal, hf, Option.getD_some, exponentPart_text]

theorem isDigit_zero : Text.isDigit '0' = true := by decide

theorem isDigit_of_mem_zeros {k : Nat} : ∀ c ∈ List.replicate k '0', Text.isDigit c = true := by
  intro c hc
  rw [List.eq_of_mem_replicate hc]
  exact isDigit_zero

/-- Digits with a point among, before or behind them make a numeral of the same value. -/
theorem exists_numeral_positional {d : Decimal} {ds : List Char} {point : Int} (hne : ds ≠ [])
    (hd : ∀ c ∈ ds, Text.isDigit c = true) (hv : Text.digitsValue ds = d.digits)
    (hp : point = ds.length + d.exponent) (h : -4 < point ∧ point ≤ 16) :
    ∃ n : Numeral, n.text = layout ds point ∧ n.decimal.value = d.value ∧
      (n.fraction ≠ none ∨ n.exponent ≠ none) := by
  unfold layout
  rw [if_pos h]
  by_cases h0 : point ≤ 0
  · -- the digits stand behind the point and some zeros
    obtain ⟨k, hk⟩ : ∃ k : Nat, (-point).toNat = k := ⟨_, rfl⟩
    have hdigits : ∀ c ∈ ['0'] ++ (List.replicate k '0' ++ ds), Text.isDigit c = true :=
      List.forall_mem_append.mpr
        ⟨List.forall_mem_singleton.mpr isDigit_zero,
          List.forall_mem_append.mpr ⟨isDigit_of_mem_zeros, hd⟩⟩
    refine ⟨⟨['0'], some (List.replicate k '0' ++ ds), none, by simp, hdigits⟩, ?_, ?_, by simp⟩
    · simp [Numeral.text, Numeral.fractionText, Numeral.exponentText, h0, hk]
    · have hval : Text.digitsValue (['0'] ++ (List.replicate k '0' ++ ds)) = d.digits := by
        rw [← List.append_assoc, ← List.replicate_one, List.replicate_append_replicate,
          Text.digitsValue_append, Text.digitsValue_zeros, hv]
        omega
      have hexp : (0 : Int) - (List.replicate k '0' ++ ds).length = d.exponent := by
        simp only [List.length_append, List.length_replicate]
        omega
      simp only [Numeral.decimal, Option.getD_some, Option.getD_none, hval, hexp]
  rw [if_neg h0]
  by_cases h1 : ds.length ≤ point.toNat
  · -- zeros fill the digits up to the point
    obtain ⟨k, hk⟩ : ∃ k : Nat, point.toNat - ds.length = k := ⟨_, rfl⟩
    have hdigits : ∀ c ∈ (ds ++ List.replicate k '0') ++ ['0'], Text.isDigit c = true :=
      List.forall_mem_append.mpr
        ⟨List.forall_mem_append.mpr ⟨hd, isDigit_of_mem_zeros⟩,
          List.forall_mem_singleton.mpr isDigit_zero⟩
    refine ⟨⟨ds ++ List.replicate k '0', some ['0'], none, by simp [hne], hdigits⟩, ?_, ?_, by simp⟩
    · simp [Numeral.text, Numeral.fractionText, Numeral.exponentText, h1, hk]
    · have hval : Text.digitsValue (ds ++ List.replicate k '0' ++ ['0']) =
          d.digits * 10 ^ (k + 1) := by
        rw [List.append_assoc, ← List.replicate_one, List.replicate_append_replicate,
          Text.digitsValue_append, Text.digitsValue_zeros, hv, List.length_replicate, Nat.add_zero]
      have hexp : d.exponent = (k + 1 : Nat) + -1 := by omega
      simp only [Numeral.decimal, Option.getD_some, Option.getD_none, hval, Decimal.value,
        List.length_singleton, Nat.cast_mul, Nat.cast_pow, Nat.cast_ofNat, Nat.cast_one]
      rw [hexp, zpow_add₀ (by norm_num), zpow_natCast, mul_assoc]
      norm_num
  · -- the point stands among the digits
    rw [if_neg h1]
    have hsplit : ds.take point.toNat ++ ds.drop point.toNat = ds := List.take_append_drop _ _
    have hwhole : ds.take point.toNat ≠ [] := by
      rw [ne_eq, List.take_eq_nil_iff, not_or]
      exact ⟨by omega, hne⟩
    refine ⟨⟨ds.take point.toNat, some (ds.drop point.toNat), none, hwhole, ?_⟩, ?_, ?_, by simp⟩
    · rw [Option.getD_some, hsplit]
      exact hd
    · simp [Numeral.text, Numeral.fractionText, Numeral.exponentText]
    · have hexp : (0 : Int) - (ds.drop point.toNat).length = d.exponent := by
        rw [List.length_drop]
        omega
      simp only [Numeral.decimal, Option.getD_some, Option.getD_none, hsplit, hv, hexp]

/-- One digit before the point and an exponent make a numeral of the same value. -/
theorem exists_numeral_scientific {d : Decimal} {ds : List Char} {point : Int} (hne : ds ≠ [])
    (hd : ∀ c ∈ ds, Text.isDigit c = true) (hv : Text.digitsValue ds = d.digits)
    (hp : point = ds.length + d.exponent) (h : ¬ (-4 < point ∧ point ≤ 16)) :
    ∃ n : Numeral, n.text = layout ds point ∧ n.decimal.value = d.value ∧
      (n.fraction ≠ none ∨ n.exponent ≠ none) := by
  unfold layout
  rw [if_neg h]
  match ds, hne with
  | [c], _ =>
    refine ⟨⟨[c], none, some (point - 1), by simp, by simpa using hd⟩, ?_, ?_, by simp⟩
    · simp [Numeral.text, Numeral.fractionText, Numeral.exponentText]
    · have hexp : point - 1 - (0 : Nat) = d.exponent := by
        simp only [List.length_singleton] at hp
        omega
      simp only [Numeral.decimal, Option.getD_none, Option.getD_some, List.append_nil,
        List.length_nil, hv, hexp]
  | c :: c' :: cs, _ =>
    refine ⟨⟨[c], some (c' :: cs), some (point - 1), by simp, by simpa using hd⟩, ?_, ?_, by simp⟩
    · simp [Numeral.text, Numeral.fractionText, Numeral.exponentText]
    · have hexp : point - 1 - (c' :: cs).length = d.exponent := by
        simp only [List.length_cons] at hp ⊢
        omega
      simp only [Numeral.decimal, Option.getD_some, List.singleton_append, hv, hexp]

/-- The text of a decimal is a numeral of the same value, and no row of digits alone. -/
theorem exists_numeral_text (d : Decimal) : ∃ n : Numeral, n.text = d.text ∧
    n.decimal.value = d.value ∧ (n.fraction ≠ none ∨ n.exponent ≠ none) := by
  have hne : Nat.toDigits 10 d.digits ≠ [] := by simp
  have hd : ∀ c ∈ Nat.toDigits 10 d.digits, Text.isDigit c = true :=
    fun c => Text.isDigit_of_mem_toDigits
  by_cases h : -4 < (Nat.toDigits 10 d.digits).length + d.exponent ∧
      (Nat.toDigits 10 d.digits).length + d.exponent ≤ 16
  · exact exists_numeral_positional hne hd (Text.digitsValue_toDigits _) rfl h
  · exact exists_numeral_scientific hne hd (Text.digitsValue_toDigits _) rfl h

end Decimal

end Stepwise
