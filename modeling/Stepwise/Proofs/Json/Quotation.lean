import Stepwise.Json.Escape

namespace Stepwise.Json

theorem hexValue?_hexDigit : ∀ n < 16, hexValue? (Text.hexDigit n) = some n := by decide

theorem hexText_four (n : Nat) : Text.hexText 4 n =
    [Text.hexDigit (n / 16 / 16 / 16 % 16), Text.hexDigit (n / 16 / 16 % 16),
      Text.hexDigit (n / 16 % 16), Text.hexDigit (n % 16)] := rfl

/-- Four digits are read back as the number that they were written for. -/
theorem hexQuad?_hexDigits {n : Nat} (h : n < 0x10000) :
    hexQuad? (Text.hexDigit (n / 16 / 16 / 16 % 16)) (Text.hexDigit (n / 16 / 16 % 16))
      (Text.hexDigit (n / 16 % 16)) (Text.hexDigit (n % 16)) = some n := by
  have hdigit (k : Nat) : hexValue? (Text.hexDigit (k % 16)) = some (k % 16) :=
    hexValue?_hexDigit _ (Nat.mod_lt k (by decide))
  have hvalue : ((n / 16 / 16 / 16 % 16 * 16 + n / 16 / 16 % 16) * 16 + n / 16 % 16) * 16 +
      n % 16 = n := by omega
  simp only [hexQuad?, hdigit, bind, Option.bind, hvalue]
  rfl

variable {d length : Nat} {rest : List Char} {units : List Nat}

theorem readUnits_unitEscape {n : Nat} (hn : n < 0x10000) (hrest : rest ≠ [])
    (h : readUnits (d + (unitEscape n).length) rest = .ok (units, length)) :
    readUnits d (unitEscape n ++ rest) = .ok (n :: units, length) := by
  obtain ⟨e, rest, rfl⟩ := List.exists_cons_of_ne_nil hrest
  rw [unitEscape, hexText_four] at h ⊢
  simp only [List.cons_append, List.nil_append, readUnits, hexQuad?_hexDigits hn]
  simp only [List.length_cons, List.length_nil] at h
  rw [h]
  rfl

theorem mem_of_lookup {pairs : List (Char × Char)} {c letter : Char}
    (h : pairs.lookup c = some letter) : (c, letter) ∈ pairs := by
  obtain ⟨before, after, rfl, -⟩ := List.lookup_eq_some_iff.mp h
  simp

theorem unescape?_of_mem : ∀ pair ∈ shortEscapes,
    unescape? pair.2 = some pair.1 ∧ pair.2 ≠ 'u' ∧ pair.1.toNat < 0x10000 := by decide

theorem readUnits_shortEscape {c letter : Char} (hc : unescape? letter = some c) (hu : letter ≠ 'u')
    (h : readUnits (d + 2) rest = .ok (units, length)) :
    readUnits d ('\\' :: letter :: rest) = .ok (c.toNat :: units, length) := by
  rw [readUnits.eq_def]
  simp [hc, hu, h, Functor.map, Except.map]

theorem readUnits_plain {c : Char} (hquote : c ≠ '"') (hslash : c ≠ '\\') (hc : ' ' ≤ c)
    (h : readUnits (d + 1) rest = .ok (units, length)) :
    readUnits d (c :: rest) = .ok (c.toNat :: units, length) := by
  have hcontrol : ¬c < ' ' := Char.not_lt.mpr hc
  rw [readUnits.eq_def]
  simp [hslash, hcontrol, h, Functor.map, Except.map]

/-- The code units of a character: one, or two surrogates. -/
def charUnits (c : Char) : List Nat :=
  if c.toNat < 0x10000 then [c.toNat]
  else [0xD800 + (c.toNat - 0x10000) / 0x400, 0xDC00 + (c.toNat - 0x10000) % 0x400]

theorem toNat_lt (c : Char) : c.toNat < 0x110000 := by
  rcases c.valid with h | h
  · exact Nat.lt_trans h (by decide)
  · exact h.2

/-- A character is read back from its escape, whatever is read behind it. -/
theorem readUnits_escapeChar {c : Char} (hrest : rest ≠ [])
    (h : readUnits (d + (escapeChar c).length) rest = .ok (units, length)) :
    readUnits d (escapeChar c ++ rest) = .ok (charUnits c ++ units, length) := by
  cases hlookup : shortEscapes.lookup c with
  | some letter =>
    obtain ⟨hc, hu, hsmall⟩ := unescape?_of_mem _ (mem_of_lookup hlookup)
    simp only [escapeChar, hlookup] at h ⊢
    rw [charUnits, if_pos hsmall]
    exact readUnits_shortEscape hc hu h
  | none =>
    have hfree := List.lookup_eq_none_iff.mp hlookup
    have hquote : c ≠ '"' := by simpa using hfree ('"', '"') (by decide)
    have hslash : c ≠ '\\' := by simpa using hfree ('\\', '\\') (by decide)
    simp only [escapeChar, hlookup] at h ⊢
    split at h
    · rename_i hplain
      have hascii : c.toNat < 0x10000 := Nat.lt_of_le_of_lt hplain.2 (by decide)
      rw [if_pos hplain, charUnits, if_pos hascii]
      exact readUnits_plain hquote hslash hplain.1 h
    · rename_i hplain
      rw [if_neg hplain]
      split at h
      · rename_i hunit
        rw [if_pos hunit, charUnits, if_pos hunit]
        exact readUnits_unitEscape hunit hrest h
      · rename_i hpair
        have hlarge := toNat_lt c
        rw [if_neg hpair, charUnits, if_neg hpair, List.append_assoc]
        have hlow : 0xDC00 + (c.toNat - 0x10000) % 0x400 < 0x10000 := by omega
        have hhigh : 0xD800 + (c.toNat - 0x10000) / 0x400 < 0x10000 := by omega
        rw [List.length_append, ← Nat.add_assoc] at h
        exact readUnits_unitEscape hhigh (by simp [unitEscape])
          (readUnits_unitEscape hlow hrest h)

theorem readUnits_escaped (d : Nat) (cs rest : List Char) :
    readUnits d (cs.flatMap escapeChar ++ '"' :: rest) =
      .ok (cs.flatMap charUnits, d + (cs.flatMap escapeChar).length + 1) := by
  induction cs generalizing d with
  | nil => rfl
  | cons c cs ih =>
    simp only [List.flatMap_cons, List.append_assoc, List.length_append]
    refine readUnits_escapeChar (by simp) ?_
    rw [ih, Nat.add_assoc d]

theorem unitChar_toNat (c : Char) : unitChar c.toNat = c := by
  have hvalid : c.toNat.isValidChar := c.valid
  rw [unitChar, if_pos hvalid, Char.ofNat_toNat]

theorem joinUnits_single {n : Nat} (h : isHighSurrogate n = false) :
    joinUnits (n :: units) = unitChar n :: joinUnits units := by
  cases units with
  | nil => rfl
  | cons low units => simp [joinUnits, h]

theorem isHighSurrogate_toNat (c : Char) : isHighSurrogate c.toNat = false := by
  have hvalid : c.toNat.isValidChar := c.valid
  simp only [isHighSurrogate, Bool.and_eq_false_iff, decide_eq_false_iff_not]
  rcases hvalid with h | h <;> omega

theorem joinUnits_charUnits (c : Char) :
    joinUnits (charUnits c ++ units) = c :: joinUnits units := by
  unfold charUnits
  split
  · rw [List.singleton_append, joinUnits_single (isHighSurrogate_toNat c), unitChar_toNat]
  · rename_i hpair
    have hlarge := toNat_lt c
    have hhigh : isHighSurrogate (0xD800 + (c.toNat - 0x10000) / 0x400) = true := by
      simp only [isHighSurrogate, Bool.and_eq_true, decide_eq_true_eq]
      omega
    have hlow : isLowSurrogate (0xDC00 + (c.toNat - 0x10000) % 0x400) = true := by
      simp only [isLowSurrogate, Bool.and_eq_true, decide_eq_true_eq]
      omega
    have hjoin : 0x10000 + (0xD800 + (c.toNat - 0x10000) / 0x400 - 0xD800) * 0x400 +
        (0xDC00 + (c.toNat - 0x10000) % 0x400 - 0xDC00) = c.toNat := by omega
    simp only [List.cons_append, List.nil_append, joinUnits, hhigh, hlow, Bool.and_self, if_true,
      hjoin, Char.ofNat_toNat]

theorem joinUnits_flatMap (cs : List Char) : joinUnits (cs.flatMap charUnits) = cs := by
  induction cs with
  | nil => rfl
  | cons c cs ih => rw [List.flatMap_cons, joinUnits_charUnits, ih]

/-- A text is read back behind its opening mark, up to its closing one. -/
theorem readText_escaped (s : String) (rest : List Char) :
    readText (s.toList.flatMap escapeChar ++ '"' :: rest) =
      .ok (s, (s.toList.flatMap escapeChar).length + 1) := by
  rw [readText, readUnits_escaped]
  simp only [bind, Except.bind, joinUnits_flatMap, String.ofList_toList, Nat.zero_add]
  rfl

end Stepwise.Json
