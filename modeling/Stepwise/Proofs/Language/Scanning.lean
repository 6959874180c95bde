import Stepwise.Language.Token
import Stepwise.Proofs.Number.Numeral

namespace Stepwise

namespace Text

theorem le_iff_toNat {a b : Char} : a ≤ b ↔ a.toNat ≤ b.toNat := Iff.rfl

theorem zeros_not_blank : ∀ z ∈ zeros, ∀ r ∈ blankRanges, z + 9 < r.1 ∨ r.2 < z := by decide

theorem isBlank_eq_false_iff {c : Char} :
    isBlank c = false ↔ ∀ r ∈ blankRanges, c.toNat < r.1 ∨ r.2 < c.toNat := by
  simp only [isBlank, inRanges, List.any_eq_false, Bool.and_eq_true, decide_eq_true_eq, not_and_or,
    not_le]

/-- A digit of any script is no blank. -/
theorem isBlank_of_isDigit {c : Char} (h : isDigit c = true) : isBlank c = false := by
  have hz : ∃ z ∈ zeros, z ≤ c.toNat ∧ c.toNat ≤ z + 9 := by
    unfold isDigit digitValue? at h
    split at h
    · split at h
      · rename_i hc
        refine ⟨0x30, by decide, hc.1, hc.2⟩
      · cases h
    · rw [Option.isSome_map, List.find?_isSome] at h
      obtain ⟨z, hz, hc⟩ := h
      simp only [Bool.and_eq_true, decide_eq_true_eq] at hc
      exact ⟨z, hz, hc.1, Nat.le_of_lt_succ hc.2⟩
  obtain ⟨z, hz, hlow, hhigh⟩ := hz
  rw [isBlank_eq_false_iff]
  intro r hr
  rcases zeros_not_blank z hz r hr with h | h
  · exact Or.inl (by omega)
  · exact Or.inr (by omega)

theorem dropWhile_isBlank {cs : List Char} (h : ∀ c ∈ cs, isBlank c = false) :
    cs.dropWhile isBlank = cs := by
  cases cs with
  | nil => rfl
  | cons c cs => simp [h c List.mem_cons_self]

theorem trim_of_not_blank {cs : List Char} (h : ∀ c ∈ cs, isBlank c = false) :
    trim (String.ofList cs) = String.ofList cs := by
  have hreverse : ∀ c ∈ cs.reverse, isBlank c = false :=
    fun c hc => h c (List.mem_reverse.mp hc)
  rw [trim, String.toList_ofList, trimStart, dropWhile_isBlank h, trimEnd,
    dropWhile_isBlank hreverse, List.reverse_reverse]

end Text

namespace Token

/-- Whether a word or a numeral ends before the text. -/
def endsWord (cs : List Char) : Bool :=
  cs.head?.all fun c => !continuesName c && !Text.isDigit c && c != '.'

theorem endsWord_append {cs rest : List Char} (h : endsWord cs = true)
    (hr : endsWord rest = true) : endsWord (cs ++ rest) = true := by
  cases cs with
  | nil => exact hr
  | cons c cs => exact h

theorem of_endsWord {c : Char} {cs : List Char} (h : endsWord (c :: cs) = true) :
    continuesName c = false ∧ Text.isDigit c = false ∧ c ≠ '.' := by
  simpa [endsWord, and_assoc] using h

/-- A name: a letter or an underscore, and then perhaps digits and apostrophes as well. -/
def isIdentifier (s : String) : Bool :=
  match s.toList with
  | [] => false
  | c :: cs => startsName c && cs.all continuesName

theorem scan_skip {p : Nat} {cs rest : List Char} :
    scan p cs.length (cs ++ rest) = scan (p + cs.length) 0 rest := by
  induction cs generalizing p with
  | nil => rfl
  | cons c cs ih =>
    rw [List.length_cons, List.cons_append, scan, ih]
    congr 1
    omega

/-- The text from a position on splits into the tokens if it stands before the end of a word. -/
def Scans (p : Nat) (cs : List Char) (ts : List Token) : Prop :=
  ∀ rest : List Char, endsWord rest = true →
    scan p 0 (cs ++ rest) = (scan (p + cs.length) 0 rest).map (ts ++ ·)

theorem scan_lexeme {p : Nat} {c : Char} {cs rest : List Char} {kind : Kind}
    (h : lexeme? c (cs ++ rest) = some (some kind, c :: cs)) :
    scan p 0 (c :: cs ++ rest) =
      (scan (p + (c :: cs).length) 0 rest).map (⟨kind, String.ofList (c :: cs), p⟩ :: ·) := by
  rw [List.cons_append, scan]
  simp only [h, List.length_cons, Nat.add_sub_cancel]
  rw [scan_skip, Nat.add_right_comm, Nat.add_assoc]
  rfl

theorem scan_blank {p : Nat} {c : Char} {rest : List Char} (hc : Text.isBlank c = true) :
    scan p 0 (c :: rest) = scan (p + 1) 0 rest := by
  rw [scan]
  have h : lexeme? c rest = some (none, [c]) := if_pos hc
  simp only [h, List.length_singleton, Nat.sub_self]

/-- A comment goes on up to the end of its line. -/
theorem scan_comment {p : Nat} {text rest : List Char} (htext : '\n' ∉ text) :
    scan p 0 ('#' :: (text ++ '\n' :: rest)) = scan (p + 1 + text.length) 0 ('\n' :: rest) := by
  have hblank : Text.isBlank '#' = false := by decide
  have hline : ∀ d ∈ text, (d != '\n') = true := by
    rintro d hd
    rw [bne_iff_ne]
    rintro rfl
    exact htext hd
  have htake : (text ++ '\n' :: rest).takeWhile (fun d => d != '\n') = text := by
    rw [List.takeWhile_append_of_pos hline]
    simp
  have h : lexeme? '#' (text ++ '\n' :: rest) = some (none, '#' :: text) := by
    simp [lexeme?, hblank, htake]
  rw [scan]
  simp only [h, List.length_cons, Nat.add_sub_cancel]
  exact scan_skip

theorem startsNumeral_of_ne {c : Char} {cs : List Char} (hc : c ≠ '.') :
    startsNumeral (c :: cs) = Text.isDigit c := by
  unfold startsNumeral
  split
  · rename_i heq
    cases heq
    exact absurd rfl hc
  · simp

/-- What begins no blank, comment, numeral, word, quotation or arrow. -/
def isSymbol (c : Char) : Bool :=
  !Text.isBlank c && c != '#' && !Text.isDigit c && c != '.' && !startsName c && c != '"' &&
    c != '='

theorem lexeme?_symbol {c : Char} {kind : Kind} {rest : List Char} (h : isSymbol c = true)
    (hk : symbolKind? c = some kind) : lexeme? c rest = some (some kind, [c]) := by
  simp only [isSymbol, Bool.and_eq_true, Bool.not_eq_true', bne_iff_ne, ne_eq] at h
  obtain ⟨⟨⟨⟨⟨⟨hblank, hcomment⟩, hdigit⟩, hpoint⟩, hname⟩, hquote⟩, harrow⟩ := h
  have hnumeral : startsNumeral (c :: rest) = false := by rw [startsNumeral_of_ne hpoint, hdigit]
  simp [lexeme?, hblank, hcomment, hnumeral, hname, hquote, harrow, hk]

theorem isSymbol_of_symbolKind? {c : Char} {kind : Kind} (h : symbolKind? c = some kind) :
    isSymbol c = true := by
  unfold symbolKind? at h
  split at h
  · decide
  · decide
  · decide
  · decide
  · obtain ⟨o, ho, -⟩ := Option.map_eq_some_iff.mp h
    unfold Operator.ofSymbol? at ho
    split at ho <;> first | decide | cases ho

theorem isSymbol_symbol (o : Operator) : isSymbol o.symbol = true := by cases o <;> decide

theorem symbolKind?_symbol (o : Operator) : symbolKind? o.symbol = some (.operator o) := by
  cases o <;> rfl

theorem not_of_startsName {c : Char} (h : startsName c = true) : Text.isBlank c = false ∧
    c ≠ '#' ∧ c ≠ '.' ∧ Text.isDigit c = false := by
  have hc : 65 ≤ c.toNat ∧ c.toNat ≤ 122 := by
    simp only [startsName, isLetter, Bool.or_eq_true, decide_eq_true_eq, beq_iff_eq,
      Text.le_iff_toNat, Char.reduceToNat] at h
    rcases h with (h | h) | rfl
    · omega
    · omega
    · decide
  refine ⟨?_, ?_, ?_, ?_⟩
  · rw [Text.isBlank_eq_false_iff]
    intro r hr
    have hr' : r.2 < 65 ∨ 122 < r.1 := by
      revert r
      decide
    omega
  · rintro rfl
    exact absurd hc (by decide)
  · rintro rfl
    exact absurd hc (by decide)
  · have hdigit : ¬ ('0' ≤ c ∧ c ≤ '9') := by
      simp only [Text.le_iff_toNat, Char.reduceToNat]
      omega
    simp [Text.isDigit, Text.digitValue?, hdigit, show c.toNat < 128 by omega]

theorem startsNumeral_of_startsName {c : Char} {rest : List Char} (h : startsName c = true) :
    startsNumeral (c :: rest) = false := by
  obtain ⟨-, -, hpoint, hdigit⟩ := not_of_startsName h
  rw [startsNumeral_of_ne hpoint, hdigit]

theorem takeWhile_continuesName {cs rest : List Char} (h : cs.all continuesName = true)
    (hr : endsWord rest = true) : (cs ++ rest).takeWhile continuesName = cs := by
  rw [List.takeWhile_append_of_pos (List.all_eq_true.mp h)]
  cases rest with
  | nil => simp
  | cons c rest => simp [(of_endsWord hr).1]

theorem wordKind_cases (word : List Char) :
    wordKind word = .name ∨ ∃ k, wordKind word = .keyword k := by
  unfold wordKind
  split
  · exact Or.inr ⟨_, rfl⟩
  · exact Or.inl rfl

theorem scans_word {p : Nat} {s : String} (h : isIdentifier s = true) :
    Scans p s.toList [⟨wordKind s.toList, s, p⟩] := by
  intro rest hr
  unfold isIdentifier at h
  cases hs : s.toList with
  | nil => simp [hs] at h
  | cons c cs =>
    rw [hs] at h
    simp only [Bool.and_eq_true] at h
    obtain ⟨hstart, hall⟩ := h
    obtain ⟨hblank, hcomment, -, -⟩ := not_of_startsName hstart
    have hlex : lexeme? c (cs ++ rest) = some (some (wordKind (c :: cs)), c :: cs) := by
      simp [lexeme?, hblank, hcomment, startsNumeral_of_startsName hstart, hstart,
        takeWhile_continuesName hall hr]
    rw [scan_lexeme hlex, ← hs, String.ofList_toList]
    rfl

theorem exponentPart_append {n : Numeral} {rest : List Char} (hr : endsWord rest = true) :
    exponentPart (n.exponentText ++ rest) = n.exponentText := by
  rcases Decimal.exponentText_cases n with h | ⟨sign, ds, hsign, hne, hd, h⟩
  · rw [h, List.nil_append]
    unfold exponentPart
    split
    · rename_i e s rest
      have he : ¬ (e = 'e' ∨ e = 'E') := by
        have hc := (of_endsWord hr).1
        rintro (rfl | rfl)
        · exact absurd hc (by decide)
        · exact absurd hc (by decide)
      rw [if_neg he]
    · rfl
  · have hhead : (ds ++ rest).head?.any Text.isDigit = true := by
      obtain ⟨d, ds, rfl⟩ := List.exists_cons_of_ne_nil hne
      simpa using hd d (by simp)
    have hstop : ∀ c ∈ rest.head?, Text.isDigit c = false := by
      intro c hc
      obtain ⟨rest', rfl⟩ : ∃ rest', rest = c :: rest' := List.head?_eq_some_iff.mp hc
      exact (of_endsWord hr).2.1
    rw [h, List.cons_append, List.cons_append, exponentPart, if_pos (Or.inl rfl),
      if_pos ⟨hsign, hhead⟩, (Decimal.span_digits hd hstop).1]

/-- What follows the digits of a numeral begins with no digit, and without a fraction it begins
with no point. -/
theorem head_exponentText_append {n : Numeral} {rest : List Char} (hr : endsWord rest = true) :
    ∀ c ∈ (n.exponentText ++ rest).head?, Text.isDigit c = false ∧ c ≠ '.' := by
  intro c hc
  rcases Decimal.exponentText_cases n with h | ⟨sign, ds, -, -, -, h⟩
  · rw [h, List.nil_append] at hc
    obtain ⟨rest', rfl⟩ : ∃ rest', rest = c :: rest' := List.head?_eq_some_iff.mp hc
    exact (of_endsWord hr).2
  · rw [h] at hc
    cases hc
    exact ⟨by decide, by decide⟩

theorem fractionPart_of_head {cs : List Char} (h : ∀ c ∈ cs.head?, c ≠ '.') :
    fractionPart cs = [] := by
  unfold fractionPart
  split
  · exact absurd rfl (h '.' rfl)
  · rfl

theorem numeral_append {n : Numeral} {rest : List Char} (hr : endsWord rest = true) :
    numeral (n.text ++ rest) = n.text := by
  have hhead := head_exponentText_append (n := n) hr
  cases hf : n.fraction with
  | none =>
    have ht : n.text ++ rest = n.whole ++ (n.exponentText ++ rest) := by
      simp [Numeral.text, Numeral.fractionText, hf]
    obtain ⟨htake, hdrop⟩ := Decimal.span_digits n.whole_digits fun c hc => (hhead c hc).1
    unfold numeral
    rw [ht]
    simp only [htake, hdrop, fractionPart_of_head fun c hc => (hhead c hc).2, List.length_nil,
      List.drop_zero, List.append_nil, exponentPart_append hr]
    simp [Numeral.text, Numeral.fractionText, hf]
  | some f =>
    have ht : n.text ++ rest = n.whole ++ '.' :: (f ++ (n.exponentText ++ rest)) := by
      simp [Numeral.text, Numeral.fractionText, hf]
    have hpoint : ∀ c ∈ ('.' :: (f ++ (n.exponentText ++ rest))).head?,
        Text.isDigit c = false := by
      simp [show Text.isDigit '.' = false by decide]
    obtain ⟨htake, hdrop⟩ := Decimal.span_digits n.whole_digits hpoint
    obtain ⟨hftake, -⟩ :=
      Decimal.span_digits (Numeral.fraction_digits hf) fun c hc => (hhead c hc).1
    unfold numeral
    rw [ht]
    simp only [htake, hdrop, fractionPart, hftake, List.length_cons, List.drop_succ_cons,
      List.drop_left, exponentPart_append hr]
    simp [Numeral.text, Numeral.fractionText, hf]

theorem scans_numeral {p : Nat} (n : Numeral) :
    Scans p n.text [⟨.number, String.ofList n.text, p⟩] := by
  intro rest hr
  obtain ⟨d, ds, hds⟩ := List.exists_cons_of_ne_nil n.nonempty
  obtain ⟨cs, hcs⟩ : ∃ cs, n.text = d :: cs := ⟨ds ++ n.fractionText ++ n.exponentText, by
    simp [Numeral.text, hds]⟩
  have hd : Text.isDigit d = true := n.whole_digits d (by simp [hds])
  have hblank := Text.isBlank_of_isDigit hd
  have hcomment : d ≠ '#' := by
    rintro rfl
    exact absurd hd (by decide)
  have hpoint : d ≠ '.' := by
    rintro rfl
    exact absurd hd (by decide)
  have hstart : startsNumeral (d :: (cs ++ rest)) = true := by rw [startsNumeral_of_ne hpoint, hd]
  have hnumeral : numeral (d :: (cs ++ rest)) = d :: cs := by
    rw [← List.cons_append, ← hcs, numeral_append hr]
  have hlex : lexeme? d (cs ++ rest) = some (some .number, d :: cs) := by
    simp [lexeme?, hblank, hcomment, hstart, hnumeral]
  rw [hcs, scan_lexeme hlex]
  rfl

namespace Scans

variable {p : Nat} {cs ds : List Char} {ts us : List Token}

theorem nil : Scans p [] [] := by
  intro rest _
  simp only [List.nil_append, List.length_nil, Nat.add_zero]
  cases scan p 0 rest <;> rfl

theorem append (h : Scans p cs ts) (h' : Scans (p + cs.length) ds us)
    (hd : endsWord ds = true) : Scans p (cs ++ ds) (ts ++ us) := by
  intro rest hr
  rw [List.append_assoc, h _ (endsWord_append hd hr), h' rest hr, List.length_append,
    ← Nat.add_assoc]
  cases scan (p + cs.length + ds.length) 0 rest with
  | error e => rfl
  | ok vs => simp [Except.map]

/-- What follows a symbol need not end a word. -/
theorem symbol {c : Char} {kind : Kind} (h : isSymbol c = true)
    (hk : symbolKind? c = some kind) (h' : Scans (p + 1) ds us) :
    Scans p (c :: ds) (⟨kind, String.ofList [c], p⟩ :: us) := by
  intro rest hr
  have hlex : lexeme? c (ds ++ rest) = some (some kind, [c]) := lexeme?_symbol h hk
  have hscan : scan p 0 ([c] ++ (ds ++ rest)) =
      (scan (p + 1) 0 (ds ++ rest)).map (⟨kind, String.ofList [c], p⟩ :: ·) := scan_lexeme hlex
  rw [List.cons_append, ← List.singleton_append, hscan, h' rest hr, List.length_cons,
    Nat.add_right_comm, Nat.add_assoc]
  cases scan (p + (ds.length + 1)) 0 rest <;> rfl

theorem gap {c : Char} (hc : Text.isBlank c = true) (h : Scans (p + 1) ds us) :
    Scans p (c :: ds) us := by
  intro rest hr
  rw [List.cons_append, scan_blank hc, h rest hr, List.length_cons, Nat.add_right_comm,
    Nat.add_assoc]

theorem blank (h : Scans (p + 1) ds us) : Scans p (' ' :: ds) us := gap (by decide) h

theorem newline (h : Scans (p + 1) ds us) : Scans p ('\n' :: ds) us := gap (by decide) h

theorem comment {text : List Char} (htext : '\n' ∉ text)
    (h : Scans (p + 1 + text.length) ('\n' :: ds) us) :
    Scans p ('#' :: text ++ '\n' :: ds) us := by
  intro rest hr
  have hlength : p + ('#' :: text ++ '\n' :: ds).length =
      p + 1 + text.length + ('\n' :: ds).length := by
    simp only [List.length_append, List.length_cons]
    omega
  rw [List.append_assoc, List.cons_append, List.cons_append, scan_comment htext,
    ← List.cons_append, h rest hr, hlength]

end Scans

end Token

theorem tokenize_of_scans {s : String} {ts : List Token} (h : Token.Scans 0 s.toList ts) :
    tokenize s = .ok ts := by
  have hs := h [] rfl
  rw [List.append_nil] at hs
  rw [tokenize, hs, Token.scan]
  simp [Except.map]

end Stepwise
