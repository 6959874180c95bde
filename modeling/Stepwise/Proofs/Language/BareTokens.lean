import Stepwise.Proofs.Language.Parentheses
import Stepwise.Proofs.Language.Positions

namespace Stepwise

namespace Token

/-- The tokens of a text that begins at a position, without their positions. -/
def bareTokensFrom? (p : Nat) (cs : List Char) : Option (List Token) :=
  (scan p 0 cs).toOption.map fun ts => ts.map bare

/-- The tokens of a text without their positions, unless it cannot be split. -/
def bareTokens? (cs : List Char) : Option (List Token) := bareTokensFrom? 0 cs

variable {p : Nat} {c : Char} {cs ds rest : List Char} {kind : Option Kind} {ts : List Token}

theorem map_bare_piece : (piece p kind cs).map bare = piece 0 kind cs := by
  cases kind <;> rfl

theorem bareTokensFrom?_stuck (h : lexeme? c cs = none) : bareTokensFrom? p (c :: cs) = none := by
  rw [bareTokensFrom?, scan_stuck h]
  rfl

theorem bareTokensFrom?_lexeme (h : lexeme? c (ds ++ rest) = some (kind, c :: ds)) :
    bareTokensFrom? p (c :: ds ++ rest) =
      (bareTokensFrom? (p + (c :: ds).length) rest).map (piece 0 kind (c :: ds) ++ ·) := by
  rw [bareTokensFrom?, bareTokensFrom?, scan_piece h]
  cases scan (p + (c :: ds).length) 0 rest with
  | error e => rfl
  | ok ts => simp [Except.map, Except.toOption, map_bare_piece]

/-- It does not matter where the text begins. -/
theorem bareTokensFrom?_eq (p : Nat) (cs : List Char) : bareTokensFrom? p cs = bareTokens? cs := by
  unfold bareTokens?
  generalize 0 = q
  induction cs using lexeme_induction generalizing p q with
  | nil =>
    rw [bareTokensFrom?, bareTokensFrom?]
    simp only [scan]
  | stuck c cs h => rw [bareTokensFrom?_stuck h, bareTokensFrom?_stuck h]
  | lexeme kind c ds rest h shape ih =>
    rw [bareTokensFrom?_lexeme h, bareTokensFrom?_lexeme h, ih _ (q + (c :: ds).length)]

theorem bareTokens?_nil : bareTokens? [] = some [] := by
  rw [bareTokens?, bareTokensFrom?, scan]
  rfl

theorem bareTokens?_stuck (h : lexeme? c cs = none) : bareTokens? (c :: cs) = none :=
  bareTokensFrom?_stuck h

theorem bareTokens?_lexeme (h : lexeme? c (ds ++ rest) = some (kind, c :: ds)) :
    bareTokens? (c :: ds ++ rest) = (bareTokens? rest).map (piece 0 kind (c :: ds) ++ ·) := by
  rw [bareTokens?, bareTokensFrom?_lexeme h, bareTokensFrom?_eq]

/-- A lexeme with nothing behind it. -/
theorem bareTokens?_alone (kind : Option Kind) (h : lexeme? c ds = some (kind, c :: ds)) :
    bareTokens? (c :: ds) = some (piece 0 kind (c :: ds)) := by
  have htokens : bareTokens? (c :: ds ++ []) = _ := bareTokens?_lexeme (by rwa [List.append_nil])
  rw [bareTokens?_nil, List.append_nil] at htokens
  simpa using htokens

theorem bareTokens?_append_newline : bareTokens? (cs ++ '\n' :: rest) = do
    let ts ← bareTokens? cs
    let us ← bareTokens? rest
    return ts ++ us := by
  rw [← bareTokensFrom?_eq (0 + cs.length + 1) rest]
  simp only [bareTokens?, bareTokensFrom?, scan_append_newline]
  cases scan 0 0 cs with
  | error e => rfl
  | ok ts =>
    cases scan (0 + cs.length + 1) 0 rest with
    | error e => rfl
    | ok us => simp [Except.toOption, bind, Except.bind, pure, Except.pure]

theorem bareTokens?_blank (h : Text.isBlank c = true) (rest : List Char) :
    bareTokens? (c :: rest) = bareTokens? rest := by
  have hlexeme : lexeme? c ([] ++ rest) = some (none, [c]) := if_pos h
  have hblank := bareTokens?_lexeme hlexeme
  simpa [piece] using hblank

/-- Blanks in front of a text add nothing. -/
theorem bareTokens?_blanks {front : List Char} (h : ∀ c ∈ front, Text.isBlank c = true) :
    bareTokens? (front ++ rest) = bareTokens? rest := by
  induction front with
  | nil => rfl
  | cons c front ih =>
    rw [List.forall_mem_cons] at h
    rw [List.cons_append, bareTokens?_blank h.1, ih h.2]

theorem bareTokens?_of_blank (h : ∀ c ∈ cs, Text.isBlank c = true) : bareTokens? cs = some [] := by
  rw [← cs.append_nil, bareTokens?_blanks h, bareTokens?_nil]

theorem bareTokens?_comment {text : List Char} (line : '\n' ∉ text)
    (ends : ∀ c ∈ rest.head?, c = '\n') :
    bareTokens? ('#' :: text ++ rest) = bareTokens? rest := by
  have h : lexeme? '#' (text ++ rest) = some (none, '#' :: text) := by
    rw [lexeme?_comment, takeWhile_line line ends]
  rw [bareTokens?_lexeme h]
  cases bareTokens? rest <;> rfl

theorem bareTokens?_of_comment {text : List Char} (line : '\n' ∉ text) :
    bareTokens? ('#' :: text) = some [] := by
  have h : bareTokens? ('#' :: text ++ []) = bareTokens? [] := bareTokens?_comment line (by simp)
  rw [← bareTokens?_nil, ← h, List.append_nil]

theorem lexeme?_concat {b : Char} (hb : Text.isBlank b = true) (hc : c ≠ '#') :
    lexeme? c (cs ++ [b]) = lexeme? c cs := by
  by_cases hquote : c = '"'
  · subst hquote
    have hb' : b ≠ '"' := by
      rintro rfl
      exact absurd hb (by decide)
    rw [lexeme?_quote, lexeme?_quote, quotation?_concat hb']
  · exact lexeme?_append_stop (separates_of_isBlank hb) hc hquote

/-- A blank behind a text adds nothing. -/
theorem bareTokens?_concat {b : Char} (hb : Text.isBlank b = true) :
    bareTokens? (cs ++ [b]) = bareTokens? cs := by
  induction cs using lexeme_induction with
  | nil =>
    rw [List.nil_append, bareTokens?_nil, bareTokens?_of_blank]
    simpa using hb
  | stuck c cs h =>
    have hc : c ≠ '#' := by
      rintro rfl
      rw [lexeme?_comment] at h
      cases h
    rw [List.cons_append, bareTokens?_stuck h, bareTokens?_stuck ((lexeme?_concat hb hc).trans h)]
  | lexeme kind c ds rest h shape ih =>
    by_cases hc : c = '#'
    · subst hc
      obtain ⟨hline, hends⟩ := comment_of_lexeme? h
      cases rest with
      | cons d rest =>
        have hends' : ∀ c ∈ (d :: rest ++ [b]).head?, c = '\n' := hends
        rw [List.append_assoc, bareTokens?_comment hline hends', ih,
          bareTokens?_comment hline hends]
      | nil =>
        -- the blank ends the comment, or it goes on with it
        rw [List.append_nil, bareTokens?_of_comment hline]
        by_cases hnewline : b = '\n'
        · rw [bareTokens?_comment hline (by simp [hnewline]), bareTokens?_of_blank]
          simpa using hb
        · exact bareTokens?_of_comment (by simp [hline, Ne.symm hnewline])
    · have h' : lexeme? c (ds ++ (rest ++ [b])) = some (kind, c :: ds) := by
        rw [← List.append_assoc, lexeme?_concat hb hc, h]
      rw [List.append_assoc, bareTokens?_lexeme h', bareTokens?_lexeme h, ih]

theorem bareTokens?_append_blanks {back : List Char} (h : ∀ c ∈ back, Text.isBlank c = true) :
    bareTokens? (cs ++ back) = bareTokens? cs := by
  induction back generalizing cs with
  | nil => rw [List.append_nil]
  | cons b back ih =>
    rw [List.forall_mem_cons] at h
    rw [List.append_cons, ih h.2, bareTokens?_concat h.1]

theorem balance_map_bare (ts : List Token) : balance (ts.map bare) = balance ts := by
  rw [balance, balance, List.map_map]
  rfl

theorem bareTokens?_eq_some {text : String} :
    bareTokens? text.toList = some ts ↔ ∃ us, tokenize text = .ok us ∧ us.map bare = ts := by
  rw [bareTokens?, bareTokensFrom?, ← tokenize]
  cases tokenize text with
  | error e => simp [Except.toOption]
  | ok us => simp [Except.toOption]

theorem bareTokens?_eq_none {text : String} :
    bareTokens? text.toList = none ↔ ∃ e, tokenize text = .error e := by
  rw [bareTokens?, bareTokensFrom?, ← tokenize]
  cases tokenize text with
  | error e => simp [Except.toOption]
  | ok us => simp [Except.toOption]

end Token

open Token

variable {text text' : String} {ts : List Token}

theorem openParentheses_of_bareTokens? (h : bareTokens? text.toList = some ts) :
    openParentheses text = balance ts := by
  obtain ⟨us, htokens, rfl⟩ := bareTokens?_eq_some.mp h
  rw [balance_map_bare, openParentheses_of_tokenize htokens]

theorem exists_bareTokens? {statements : List Statement} (h : readProgram text = .ok statements) :
    ∃ ts, bareTokens? text.toList = some ts := by
  obtain ⟨tokens, htokens, -⟩ := ok_of_bind_mapError h
  exact ⟨tokens.map bare, bareTokens?_eq_some.mpr ⟨tokens, htokens, rfl⟩⟩

theorem readProgram_of_bareTokens?_none (h : bareTokens? text.toList = none) :
    ∃ e, readProgram text = .error (.malformed e) := by
  obtain ⟨e, he⟩ := bareTokens?_eq_none.mp h
  refine ⟨e, ?_⟩
  rw [readProgram, tokensOf, he]
  rfl

theorem readProgram_of_bareTokens? (h : bareTokens? text.toList = some ts) :
    Agree Eq (readProgram text) (readStatements 0 0 ts) := by
  obtain ⟨us, htokens, rfl⟩ := bareTokens?_eq_some.mp h
  rw [readProgram, tokensOf, htokens]
  exact readStatements_agrees

/-- Texts with the same tokens are read alike. -/
theorem readProgram_agrees (h : bareTokens? text.toList = bareTokens? text'.toList) :
    Agree Eq (readProgram text) (readProgram text') := by
  cases hts : bareTokens? text.toList with
  | none =>
    obtain ⟨e, he⟩ := readProgram_of_bareTokens?_none hts
    obtain ⟨e', he'⟩ := readProgram_of_bareTokens?_none (h.symm.trans hts)
    rw [he, he']
    exact .malformed e e'
  | some ts =>
    have hread := readProgram_of_bareTokens? (h.symm.trans hts)
    exact (readProgram_of_bareTokens? hts).trans hread.symm

/-- A text is read as what its tokens derive, wherever they stand. -/
theorem derives_of_readTerm {t : Term} (h : readTerm text = .ok t) :
    ∃ ts, bareTokens? text.toList = some ts ∧ Derives ts t := by
  obtain ⟨tokens, htokens, hread⟩ := ok_of_bind_mapError h
  obtain ⟨⟨t', rest⟩, hexpression, hread⟩ := ok_of_bind hread
  obtain ⟨⟨⟩, hfinished, hread⟩ := ok_of_bind hread
  cases hread
  refine ⟨tokens.map bare, bareTokens?_eq_some.mpr ⟨tokens, htokens, rfl⟩, ?_⟩
  cases rest with
  | cons w ws => cases hfinished
  | nil =>
    have hagrees : Agree (Before []) (readExpression text.length tokens)
        (readExpression 0 (tokens.map bare ++ [])) := readExpression_agrees rfl
    rw [hexpression, List.append_nil] at hagrees
    obtain ⟨_, hbare, rfl⟩ := hagrees.exists_of_ok
    have hreading := readExpression_reading 0 (tokens.map bare)
    rw [hbare] at hreading
    generalize tokens.map bare = ts at hreading
    cases hreading with
    | expression us after split phrase =>
      rw [split]
      exact ⟨_, by simpa using phrase⟩

end Stepwise
