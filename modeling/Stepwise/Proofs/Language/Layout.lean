import Stepwise.Proofs.Language.Comments

namespace Stepwise

namespace Token

/-- The characters from a position on are blanks, comments up to the ends of their lines, and the
tokens in their order, each at its own position. -/
inductive LaidOut : Nat → List Token → List Char → Prop
  | nil {p : Nat} : LaidOut p [] []
  | blank {p : Nat} {c : Char} {ts : List Token} {cs : List Char} (blank : Text.isBlank c = true)
      (rest : LaidOut (p + 1) ts cs) : LaidOut p ts (c :: cs)
  | comment {p : Nat} {text : List Char} {ts : List Token} {cs : List Char} (line : '\n' ∉ text)
      (ends : ∀ c ∈ cs.head?, c = '\n') (rest : LaidOut (p + ('#' :: text).length) ts cs) :
      LaidOut p ts ('#' :: text ++ cs)
  | token {t : Token} {ts : List Token} {cs : List Char} (nonempty : 0 < t.text.length)
      (rest : LaidOut (t.position + t.text.length) ts cs) :
      LaidOut t.position (t :: ts) (t.text.toList ++ cs)

/-- Blanks, and comments that a newline ends. -/
inductive Gap : List Char → Prop
  | nil : Gap []
  | blank {c : Char} {cs : List Char} (blank : Text.isBlank c = true) (rest : Gap cs) :
      Gap (c :: cs)
  | comment {text cs : List Char} (line : '\n' ∉ text) (rest : Gap cs) :
      Gap ('#' :: text ++ '\n' :: cs)

/-- The texts of the tokens, with a gap between every two. -/
inductive Joined : List Token → List Char → Prop
  | nil : Joined [] []
  | single (t : Token) : Joined [t] t.text.toList
  | cons (t : Token) {u : Token} {us : List Token} {between cs : List Char} (gap : Gap between)
      (nonempty : between ≠ []) (rest : Joined (u :: us) cs) :
      Joined (t :: u :: us) (t.text.toList ++ (between ++ cs))

namespace LaidOut

variable {p : Nat} {ts : List Token} {t : Token} {cs : List Char}

theorem le_position (h : LaidOut p ts cs) : ∀ t ∈ ts, p ≤ t.position := by
  induction h with
  | nil =>
    intro t ht
    cases ht
  | blank blank rest ih =>
    intro t ht
    exact Nat.le_of_succ_le (ih t ht)
  | comment line ends rest ih =>
    intro t ht
    exact Nat.le_of_add_right_le (ih t ht)
  | token nonempty rest ih =>
    intro u hu
    rcases List.mem_cons.mp hu with rfl | hu
    · exact Nat.le_refl _
    · exact Nat.le_of_add_right_le (ih u hu)

theorem ordered (h : LaidOut p ts cs) :
    ts.Pairwise fun t u => t.position < u.position ∧ t.position + t.text.length ≤ u.position := by
  induction h with
  | nil => exact .nil
  | blank blank rest ih => exact ih
  | comment line ends rest ih => exact ih
  | @token t ts cs nonempty rest ih =>
    refine .cons ?_ ih
    intro u hu
    have hbehind := rest.le_position u hu
    omega

/-- What stands in front of a slice only moves it. -/
theorem drop_append_sub {as bs : List Char} {q : Nat} (h : p + as.length ≤ q) :
    (as ++ bs).drop (q - p) = bs.drop (q - (p + as.length)) := by
  have hq : q - p = as.length + (q - (p + as.length)) := by omega
  rw [hq, List.drop_length_add_append]

theorem slices (h : LaidOut p ts cs) :
    ∀ t ∈ ts, t.text.toList = (cs.drop (t.position - p)).take t.text.length := by
  induction h with
  | nil =>
    intro t ht
    cases ht
  | @blank p c ts cs blank rest ih =>
    intro t ht
    have hposition : p + [c].length ≤ t.position := rest.le_position t ht
    rw [ih t ht, ← List.singleton_append, drop_append_sub hposition]
    rfl
  | comment line ends rest ih =>
    intro t ht
    rw [ih t ht, drop_append_sub (rest.le_position t ht)]
  | @token t ts cs nonempty rest ih =>
    intro u hu
    rcases List.mem_cons.mp hu with rfl | hu
    · rw [Nat.sub_self, List.drop_zero, ← String.length_toList, List.take_left]
    · have hposition := rest.le_position u hu
      rw [← String.length_toList] at hposition
      rw [ih u hu, drop_append_sub hposition, String.length_toList]

end LaidOut

variable {p : Nat} {c : Char} {cs ds rest : List Char} {kind : Kind} {ts : List Token}

/-- The tokens of a text are laid out in it. -/
theorem Scanned.laidOut (h : Scanned p ts cs) : LaidOut p ts cs := by
  induction h with
  | nil => exact .nil
  | dropped lexeme behind ih =>
    cases lexeme with
    | blank blank => exact .blank blank ih
    | comment line ends => exact .comment line ends ih
  | @token p kind c ds rest ts lexeme behind ih =>
    let t : Token := ⟨kind, String.ofList (c :: ds), p⟩
    have htext : t.text.toList = c :: ds := String.toList_ofList
    have hlength : t.text.length = (c :: ds).length := String.length_ofList
    have hnonempty : 0 < t.text.length := by
      rw [hlength]
      exact Nat.succ_pos _
    have hlaid : LaidOut p (t :: ts) (t.text.toList ++ rest) := .token hnonempty (hlength ▸ ih)
    rwa [htext] at hlaid

/-- The text of the token is read alone as the token. -/
def StandsAlone (t : Token) : Prop :=
  ∃ c ds, t.text.toList = c :: ds ∧ lexeme? c ds = some (some t.kind, c :: ds)

theorem head_exponentPart (cs : List Char) :
    ∀ c ∈ (exponentPart cs).head?, Text.isDigit c = false ∧ c ≠ '.' := by
  intro c hc
  have hletter {e : Char} (he : e = 'e' ∨ e = 'E') : Text.isDigit e = false ∧ e ≠ '.' := by
    rcases he with rfl | rfl <;> decide
  unfold exponentPart at hc
  split at hc
  · split at hc
    · rename_i he
      split at hc
      · cases hc
        exact hletter he
      · split at hc
        · cases hc
          exact hletter he
        · cases hc
    · cases hc
  · cases hc

theorem takeWhile_isDigit (cs : List Char) :
    (cs.takeWhile Text.isDigit).takeWhile Text.isDigit = cs.takeWhile Text.isDigit :=
  List.takeWhile_eq_self_iff.mpr fun _ => of_mem_takeWhile

theorem head_takeWhile_isDigit (cs : List Char) :
    (cs.takeWhile Text.isDigit).head?.any Text.isDigit = cs.head?.any Text.isDigit := by
  cases cs with
  | nil => rfl
  | cons c cs =>
    cases hc : Text.isDigit c <;> simp [hc]

theorem exponentPart_alone (cs : List Char) :
    exponentPart (exponentPart cs) = exponentPart cs := by
  match cs with
  | [] | [_] => rfl
  | e :: s :: rest =>
    by_cases he : e = 'e' ∨ e = 'E'
    · by_cases hsign : (s = '+' ∨ s = '-') ∧ rest.head?.any Text.isDigit
      · simp only [exponentPart, he, hsign, if_true, and_self, head_takeWhile_isDigit,
          takeWhile_isDigit]
      · cases hdigit : Text.isDigit s with
        | false => simp [exponentPart, he, hsign, hdigit]
        | true =>
          have hplain : ¬ (s = '+' ∨ s = '-') := by
            rintro (rfl | rfl) <;> exact absurd hdigit (by decide)
          simp [exponentPart, he, hplain, hdigit, takeWhile_isDigit]
    · simp [exponentPart, he]

theorem fractionPart_append_exponentPart (cs ds : List Char) :
    fractionPart (fractionPart cs ++ exponentPart ds) = fractionPart cs := by
  have hhead := head_exponentPart ds
  by_cases hpoint : ∃ rest, cs = '.' :: rest
  · obtain ⟨rest, rfl⟩ := hpoint
    have hdigits : ∀ c ∈ rest.takeWhile Text.isDigit, Text.isDigit c = true :=
      fun _ => of_mem_takeWhile
    obtain ⟨htake, -⟩ := Decimal.span_digits hdigits fun c hc => (hhead c hc).1
    rw [fractionPart, List.cons_append, fractionPart, htake]
  · have hnone : fractionPart cs = [] := by
      refine fractionPart_of_head ?_
      rintro c hc rfl
      obtain ⟨rest, hrest⟩ := List.head?_eq_some_iff.mp hc
      exact hpoint ⟨rest, hrest⟩
    rw [hnone, List.nil_append]
    exact fractionPart_of_head fun c hc => (hhead c hc).2

theorem isDigit_of_head_fractionPart (h : fractionPart cs = c :: ds) : Text.isDigit c = false := by
  unfold fractionPart at h
  split at h
  · cases h
    decide
  · cases h

/-- A numeral is read again as a whole. -/
theorem numeral_alone (cs : List Char) : numeral (numeral cs) = numeral cs := by
  generalize hrest : cs.dropWhile Text.isDigit = rest
  generalize hafter : rest.drop (fractionPart rest).length = after
  have hnumeral : numeral cs =
      cs.takeWhile Text.isDigit ++ (fractionPart rest ++ exponentPart after) := by
    simp only [numeral, hrest, hafter, List.append_assoc]
  have hhead : ∀ c ∈ (fractionPart rest ++ exponentPart after).head?, Text.isDigit c = false := by
    intro c hc
    cases hfraction : fractionPart rest with
    | nil =>
      rw [hfraction, List.nil_append] at hc
      exact (head_exponentPart after c hc).1
    | cons d ds =>
      rw [hfraction] at hc
      cases hc
      exact isDigit_of_head_fractionPart hfraction
  have hdigits : ∀ c ∈ cs.takeWhile Text.isDigit, Text.isDigit c = true :=
    fun _ => of_mem_takeWhile
  obtain ⟨htake, hdrop⟩ := Decimal.span_digits hdigits hhead
  rw [hnumeral]
  simp only [numeral, htake, hdrop, fractionPart_append_exponentPart, List.drop_left,
    exponentPart_alone, List.append_assoc]

theorem startsNumeral_numeral (h : startsNumeral (c :: cs) = true) :
    startsNumeral (numeral (c :: cs)) = true := by
  by_cases hc : c = '.'
  · subst hc
    cases cs with
    | nil => cases h
    | cons d cs =>
      have hdigit : Text.isDigit d = true := by simpa [startsNumeral] using h
      have hpoint : Text.isDigit '.' = false := by decide
      simp [numeral, fractionPart, startsNumeral, hpoint, hdigit]
  · obtain ⟨ds, hds⟩ := numeral_cons h
    rw [hds, startsNumeral_of_ne hc, ← h, startsNumeral_of_ne hc]

theorem not_of_startsNumeral (h : startsNumeral (c :: cs) = true) :
    Text.isBlank c = false ∧ c ≠ '#' := by
  by_cases hc : c = '.'
  · subst hc
    decide
  · rw [startsNumeral_of_ne hc] at h
    refine ⟨Text.isBlank_of_isDigit h, ?_⟩
    rintro rfl
    exact absurd h (by decide)

/-- What is read in front of a text is read alone. -/
theorem Lexeme.alone (h : Lexeme rest (some kind) c ds) :
    lexeme? c ds = some (some kind, c :: ds) := by
  cases h with
  | numeral starts text =>
    have hstarts : startsNumeral (c :: ds) = true := by
      rw [← text]
      exact startsNumeral_numeral starts
    have halone : Token.numeral (c :: ds) = c :: ds := by
      rw [← text, numeral_alone]
    obtain ⟨hblank, hcomment⟩ := not_of_startsNumeral hstarts
    simp [lexeme?, hblank, hcomment, hstarts, halone]
  | word starts continues =>
    obtain ⟨hblank, hcomment, -, -⟩ := not_of_startsName starts
    have hword : ds.takeWhile continuesName = ds := List.takeWhile_eq_self_iff.mpr continues
    simp [lexeme?, hblank, hcomment, startsNumeral_of_startsName starts, starts, hword]
  | string inside =>
    rw [lexeme?_quote, quotation?_closed inside]
    rfl
  | arrow => rfl
  | symbol symbol => exact lexeme?_symbol (isSymbol_of_symbolKind? symbol) symbol

theorem Scanned.standsAlone (h : Scanned p ts cs) : ∀ t ∈ ts, t.StandsAlone := by
  induction h with
  | nil =>
    intro t ht
    cases ht
  | dropped lexeme behind ih => exact ih
  | token lexeme behind ih =>
    rw [List.forall_mem_cons]
    exact ⟨⟨_, _, String.toList_ofList, lexeme.alone⟩, ih⟩

/-- A separator behind a lexeme does not go on with it. -/
theorem lexeme?_before {b : Char} (h : lexeme? c ds = some (some kind, c :: ds))
    (hb : separates b = true) (rest : List Char) :
    lexeme? c (ds ++ b :: rest) = some (some kind, c :: ds) := by
  have hcomment : c ≠ '#' := by
    rintro rfl
    rw [lexeme?_comment] at h
    cases h
  by_cases hquote : c = '"'
  · subst hquote
    rw [lexeme?_quote, Option.map_eq_some_iff] at h
    obtain ⟨text, htext, hk⟩ := h
    rw [Prod.mk.injEq] at hk
    obtain ⟨hkind, rfl⟩ := hk
    obtain ⟨body, -, hbody, -, hds⟩ := quotation?_eq_some htext
    rw [List.cons_append, List.cons.injEq] at hds
    rw [hds.2, List.append_assoc, List.singleton_append, lexeme?_quote, quotation?_closed hbody,
      ← hkind]
    rfl
  · rw [lexeme?_append_stop hb hcomment hquote, h]

namespace Gap

variable {gap : List Char}

theorem exists_separator (h : Gap gap) (nonempty : gap ≠ []) :
    ∃ b more, gap = b :: more ∧ separates b = true := by
  cases h with
  | nil => exact absurd rfl nonempty
  | blank blank rest => exact ⟨_, _, rfl, separates_of_isBlank blank⟩
  | comment line rest => exact ⟨_, _, rfl, by decide⟩

theorem bareTokens?_append (h : Gap gap) (cs : List Char) :
    bareTokens? (gap ++ cs) = bareTokens? cs := by
  induction h with
  | nil => rfl
  | blank blank rest ih => rw [List.cons_append, bareTokens?_blank blank, ih]
  | @comment text gap line rest ih =>
    have hcomment : bareTokens? ('#' :: text ++ '\n' :: (gap ++ cs)) =
        bareTokens? ('\n' :: (gap ++ cs)) := bareTokens?_comment line (by simp)
    have hsplit : '#' :: text ++ '\n' :: gap ++ cs = '#' :: text ++ '\n' :: (gap ++ cs) := by simp
    rw [hsplit, hcomment, bareTokens?_blank (by decide), ih]

end Gap

theorem piece_text (t : Token) : piece 0 (some t.kind) t.text.toList = [t.bare] := by
  rw [piece, String.ofList_toList]
  rfl

theorem Joined.bareTokens? (h : Joined ts cs) (alone : ∀ t ∈ ts, t.StandsAlone) :
    bareTokens? cs = some (ts.map bare) := by
  induction h with
  | nil => exact bareTokens?_nil
  | single t =>
    obtain ⟨c, ds, htext, hlexeme⟩ := alone t (List.mem_singleton_self t)
    rw [htext, bareTokens?_alone _ hlexeme, ← htext, piece_text]
    rfl
  | @cons t u us between cs gap nonempty rest ih =>
    rw [List.forall_mem_cons] at alone
    obtain ⟨c, ds, htext, hlexeme⟩ := alone.1
    obtain ⟨b, more, rfl, hb⟩ := gap.exists_separator nonempty
    have hbefore : lexeme? c (ds ++ (b :: more ++ cs)) = some (some t.kind, c :: ds) :=
      lexeme?_before hlexeme hb (more ++ cs)
    rw [htext, bareTokens?_lexeme hbefore, gap.bareTokens?_append, ih alone.2, ← htext, piece_text]
    rfl

end Token

open Token

/-- Tokens are slices of their text, one behind the other, with only blanks and comments around
them; and their texts, with any blanks and closed comments between them, split into tokens of the
same kinds and texts again. -/
theorem laidOut_and_joined_of_tokenize {text : String} {tokens : List Token}
    (h : tokenize text = .ok tokens) :
    (∀ t ∈ tokens, t.text.toList = (text.toList.drop t.position).take t.text.length) ∧
      (tokens.Pairwise fun t u =>
        t.position < u.position ∧ t.position + t.text.length ≤ u.position) ∧
      LaidOut 0 tokens text.toList ∧
      ∀ joined : String, Joined tokens joined.toList →
        ∃ us, tokenize joined = .ok us ∧ us.map bare = tokens.map bare := by
  have hscanned : Scanned 0 tokens text.toList := scanned_of_scan h
  have hlaid := hscanned.laidOut
  refine ⟨?_, hlaid.ordered, hlaid, ?_⟩
  · intro t ht
    exact hlaid.slices t ht
  · intro joined hjoined
    have hbare := hjoined.bareTokens? hscanned.standsAlone
    exact bareTokens?_eq_some.mp hbare

/-- Numerals with nothing between them, a comment with a quotation mark in it and a string with the
sign of a comment; in the new layout a comment stands right behind the arrow. -/
theorem laidOut_and_joined_of_tokenize_numerals :
    let tokens : List Token := [⟨.number, "1.2", 0⟩, ⟨.number, ".3", 3⟩, ⟨.number, "2", 6⟩,
      ⟨.name, "e", 7⟩, ⟨.arrow, "=>", 11⟩, ⟨.string, "\"#\"", 13⟩]
    tokenize "1.2.3 2e#\"\n=>\"#\" # end" = .ok tokens ∧
      LaidOut 0 tokens "1.2.3 2e#\"\n=>\"#\" # end".toList ∧
      Joined tokens "1.2 .3\n2 e\t=># (\n \"#\"".toList ∧
      ∃ us, tokenize "1.2 .3\n2 e\t=># (\n \"#\"" = .ok us ∧
        us.map bare = tokens.map bare := by
  intro tokens
  have htokens : tokenize "1.2.3 2e#\"\n=>\"#\" # end" = .ok tokens :=
    ok_of_toOption (by decide +kernel)
  have hblank (c : Char) (blank : Text.isBlank c = true) : Gap [c] := .blank blank .nil
  have hcomment : Gap ('#' :: [' ', '('] ++ '\n' :: [' ']) :=
    .comment (by decide) (hblank ' ' (by decide))
  have hjoined : Joined tokens "1.2 .3\n2 e\t=># (\n \"#\"".toList :=
    .cons _ (hblank ' ' (by decide)) (by simp) <| .cons _ (hblank '\n' (by decide)) (by simp) <|
      .cons _ (hblank ' ' (by decide)) (by simp) <| .cons _ (hblank '\t' (by decide)) (by simp) <|
        .cons _ hcomment (by simp) <| .single _
  obtain ⟨-, -, hlaid, hagain⟩ := laidOut_and_joined_of_tokenize htokens
  exact ⟨htokens, hlaid, hjoined, hagain _ hjoined⟩

end Stepwise
