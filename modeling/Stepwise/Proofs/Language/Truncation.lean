import Stepwise.Proofs.Language.Layout

namespace Stepwise

namespace Token

section Prefixes

variable {p : Char → Bool} {as bs cs : List Char}

theorem prefix_takeWhile (h : as <+: bs) : as.takeWhile p <+: bs.takeWhile p := by
  obtain ⟨more, rfl⟩ := h
  rw [List.takeWhile_append]
  split
  · rename_i hall
    rw [(List.takeWhile_prefix p).eq_of_length hall]
    exact List.prefix_append _ _
  · exact List.prefix_rfl

/-- A beginning of the text up to some character that stops has the same part in front of it. -/
theorem takeWhile_dropWhile_of_beginning (h : as <+: bs) (hstop : as.dropWhile p ≠ []) :
    bs.takeWhile p = as.takeWhile p ∧ as.dropWhile p <+: bs.dropWhile p := by
  obtain ⟨more, rfl⟩ := h
  have hshort : ¬ (as.takeWhile p).length = as.length := by
    intro hlength
    have hall := List.takeWhile_append_dropWhile (p := p) (l := as)
    rw [(List.takeWhile_prefix p).eq_of_length hlength, List.append_right_eq_self] at hall
    exact hstop hall
  rw [List.takeWhile_append, if_neg hshort, List.dropWhile_append]
  refine ⟨rfl, ?_⟩
  rw [if_neg (by simpa using hstop)]
  exact List.prefix_append _ _

theorem prefix_exponentPart_of_beginning (h : as <+: bs) : exponentPart as <+: exponentPart bs := by
  obtain ⟨more, rfl⟩ := h
  match as with
  | [] | [_] => exact List.nil_prefix
  | e :: s :: rest =>
    have hdigits : rest.takeWhile Text.isDigit <+: (rest ++ more).takeWhile Text.isDigit :=
      prefix_takeWhile (List.prefix_append _ _)
    have hhead : rest.head?.any Text.isDigit = true →
        (rest ++ more).head?.any Text.isDigit = true := by
      cases rest with
      | nil => nofun
      | cons d rest => exact id
    by_cases he : e = 'e' ∨ e = 'E'
    · by_cases hsign : (s = '+' ∨ s = '-') ∧ rest.head?.any Text.isDigit = true
      · simp only [exponentPart, List.cons_append, he, hsign, hhead hsign.2, and_self, if_true]
        exact (List.prefix_cons_inj _).mpr ((List.prefix_cons_inj _).mpr hdigits)
      · cases hdigit : Text.isDigit s with
        | false => simp [exponentPart, he, hsign, hdigit]
        | true =>
          have hplain : ¬ (s = '+' ∨ s = '-') := by
            rintro (rfl | rfl) <;> exact absurd hdigit (by decide)
          simpa [exponentPart, he, hplain, hdigit] using hdigits
    · simp [exponentPart, he]

/-- A longer text has a longer numeral at its start, if any other. -/
theorem prefix_numeral_of_beginning (h : as <+: bs) : numeral as <+: numeral bs := by
  by_cases hwhole : as.dropWhile Text.isDigit = []
  · have has : as.takeWhile Text.isDigit = as := by
      simpa [hwhole] using List.takeWhile_append_dropWhile (p := Text.isDigit) (l := as)
    have hnumeral : numeral as = as := by simp [numeral, has, hwhole, fractionPart, exponentPart]
    rw [hnumeral, numeral, List.append_assoc]
    exact (has ▸ prefix_takeWhile h).trans (List.prefix_append _ _)
  · obtain ⟨htake, hdrop⟩ := takeWhile_dropWhile_of_beginning h hwhole
    simp only [numeral, htake, List.append_assoc]
    rw [List.prefix_append_right_inj]
    generalize as.dropWhile Text.isDigit = rest at hdrop hwhole
    generalize bs.dropWhile Text.isDigit = rest' at hdrop
    obtain ⟨c, cs, rfl⟩ := List.exists_cons_of_ne_nil hwhole
    obtain ⟨more, rfl⟩ := hdrop
    by_cases hpoint : c = '.'
    · subst hpoint
      by_cases hall : cs.dropWhile Text.isDigit = []
      · have hcs : cs.takeWhile Text.isDigit = cs := by
          simpa [hall] using List.takeWhile_append_dropWhile (p := Text.isDigit) (l := cs)
        have hdigits : cs.takeWhile Text.isDigit <+: (cs ++ more).takeWhile Text.isDigit :=
          prefix_takeWhile (List.prefix_append cs more)
        rw [hcs] at hdigits
        have hfraction : fractionPart ('.' :: cs) = '.' :: cs := by rw [fractionPart, hcs]
        rw [hfraction, List.drop_length, exponentPart, List.append_nil, List.cons_append,
          fractionPart, List.cons_append]
        · exact (List.prefix_cons_inj _).mpr (hdigits.trans (List.prefix_append _ _))
        · intro e s rest h
          cases h
      · have hdigits := (takeWhile_dropWhile_of_beginning (List.prefix_append cs more) hall).1
        have hfraction : fractionPart ('.' :: cs ++ more) = fractionPart ('.' :: cs) := by
          rw [List.cons_append, fractionPart, hdigits, fractionPart]
        rw [hfraction, List.prefix_append_right_inj]
        have hlength := (prefix_fractionPart ('.' :: cs)).length_le
        rw [List.drop_append_of_le_length hlength]
        exact prefix_exponentPart_of_beginning (List.prefix_append _ _)
    · have hnone (ds : List Char) : fractionPart (c :: ds) = [] :=
        fractionPart_of_head (by simpa using hpoint)
      rw [List.cons_append, hnone, hnone]
      exact prefix_exponentPart_of_beginning ((List.prefix_cons_inj c).mpr (List.prefix_append _ _))

/-- What grows with the text, and is taken as a whole where it stands alone, is taken in front of
any beginning of what followed it. -/
theorem eq_of_beginning {f : List Char → List Char} {text rest rest' : List Char}
    (grows : ∀ {as bs : List Char}, as <+: bs → f as <+: f bs) (alone : ∀ cs, f (f cs) = f cs)
    (h : f (text ++ rest) = text) (hr : rest' <+: rest) : f (text ++ rest') = text := by
  have htext : f text = text := by
    rw [← h]
    exact alone _
  have hlow : f text <+: f (text ++ rest') := grows (List.prefix_append text rest')
  have hhigh : f (text ++ rest') <+: f (text ++ rest) :=
    grows ((List.prefix_append_right_inj text).mpr hr)
  rw [htext] at hlow
  rw [h] at hhigh
  exact hhigh.eq_of_length_le hlow.length_le

end Prefixes

variable {q : Nat} {c : Char} {cs ds rest rest' : List Char} {kind : Option Kind}

theorem takeWhile_of_beginning {p : Char → Bool} (h : (ds ++ rest).takeWhile p = ds)
    (hr : rest' <+: rest) : (ds ++ rest').takeWhile p = ds :=
  eq_of_beginning prefix_takeWhile
    (fun _ => List.takeWhile_eq_self_iff.mpr fun _ => of_mem_takeWhile) h hr

theorem startsNumeral_append (h : startsNumeral (c :: ds) = true) (rest : List Char) :
    startsNumeral (c :: ds ++ rest) = true := by
  rw [List.cons_append]
  by_cases hc : c = '.'
  · subst hc
    cases ds with
    | nil => cases h
    | cons d ds => exact h
  · rwa [startsNumeral_of_ne hc] at h ⊢

/-- A lexeme is read in front of any beginning of what followed it. -/
theorem lexeme?_of_beginning (h : lexeme? c (ds ++ rest) = some (kind, c :: ds))
    (hr : rest' <+: rest) : lexeme? c (ds ++ rest') = some (kind, c :: ds) := by
  obtain ⟨ds', more, htext, hsplit, hlexeme⟩ := lexeme_of_lexeme? h
  obtain rfl : ds = ds' := by simpa using htext
  obtain rfl : rest = more := List.append_cancel_left hsplit
  cases hlexeme with
  | blank blank => simp [lexeme?, blank]
  | comment line ends =>
    have hline : (ds ++ rest').takeWhile (fun d => d != '\n') = ds :=
      takeWhile_of_beginning (takeWhile_line line ends) hr
    rw [lexeme?_comment, hline]
  | numeral starts text =>
    have hstarts : startsNumeral (c :: ds ++ rest') = true := by
      refine startsNumeral_append ?_ rest'
      rw [← text]
      exact startsNumeral_numeral starts
    have hnumeral : Token.numeral (c :: ds ++ rest') = c :: ds :=
      eq_of_beginning prefix_numeral_of_beginning numeral_alone text hr
    obtain ⟨hblank, hcomment⟩ := not_of_startsNumeral starts
    rw [List.cons_append] at hstarts hnumeral
    simp [lexeme?, hblank, hcomment, hstarts, hnumeral]
  | word starts continues =>
    obtain ⟨hblank, hcomment, -, -⟩ := not_of_startsName starts
    have hlexeme (more : List Char) : lexeme? c more =
        some (some (wordKind (c :: more.takeWhile continuesName)),
          c :: more.takeWhile continuesName) := by
      simp [lexeme?, hblank, hcomment, startsNumeral_of_startsName starts, starts]
    have hword : (ds ++ rest).takeWhile continuesName = ds := by
      rw [hlexeme] at h
      simpa using congrArg Prod.snd (Option.some.inj h)
    rw [hlexeme, takeWhile_of_beginning hword hr]
  | string inside =>
    rw [List.append_assoc, List.singleton_append, lexeme?_quote, quotation?_closed inside]
    rfl
  | arrow => rfl
  | symbol symbol => exact lexeme?_symbol (isSymbol_of_symbolKind? symbol) symbol

/-- What can begin a text is found there. -/
theorem Lexeme.isSome (h : Lexeme rest kind c ds) : (lexeme? c (ds ++ rest)).isSome = true := by
  cases h with
  | blank blank => simp [lexeme?, blank]
  | comment line ends => simp [lexeme?_comment]
  | numeral starts text =>
    obtain ⟨hblank, hcomment⟩ := not_of_startsNumeral starts
    rw [List.cons_append] at starts
    simp [lexeme?, hblank, hcomment, starts]
  | word starts continues =>
    obtain ⟨hblank, hcomment, -, -⟩ := not_of_startsName starts
    simp [lexeme?, hblank, hcomment, startsNumeral_of_startsName starts, starts]
  | string inside =>
    rw [List.append_assoc, List.singleton_append, lexeme?_quote, quotation?_closed inside]
    rfl
  | arrow => rfl
  | symbol symbol => rw [lexeme?_symbol (isSymbol_of_symbolKind? symbol) symbol]; rfl

theorem not_lexeme_of_stuck (h : lexeme? c cs = none) (kind : Option Kind) (ds rest : List Char)
    (hsplit : cs = ds ++ rest) : ¬ Lexeme rest kind c ds := by
  intro hlexeme
  have hsome := hlexeme.isSome
  rw [← hsplit, h] at hsome
  cases hsome

/-- Where the tokens that are left begin, in a text that ends at a position. -/
def startOf (stop : Nat) : List Token → Nat
  | [] => stop
  | t :: _ => t.position

theorem scan_piece_of_beginning (h : lexeme? c (ds ++ rest) = some (kind, c :: ds)) (m : Nat) :
    scan q 0 ((c :: ds ++ rest).take ((c :: ds).length + m)) =
      (scan (q + (c :: ds).length) 0 (rest.take m)).map (piece q kind (c :: ds) ++ ·) := by
  rw [List.take_length_add_append]
  exact scan_piece (lexeme?_of_beginning h (List.take_prefix m rest))

/-- Cut off in front of a token, a text splits into the tokens before it. -/
theorem scan_take {seen after : List Token} (h : scan q 0 cs = .ok (seen ++ after)) :
    ∃ m, startOf (q + cs.length) after = q + m ∧ scan q 0 (cs.take m) = .ok seen := by
  induction cs using lexeme_induction generalizing q seen with
  | nil =>
    rw [scan, Except.ok.injEq, List.nil_eq, List.append_eq_nil_iff] at h
    obtain ⟨rfl, rfl⟩ := h
    exact ⟨0, rfl, by rw [List.take_nil, scan]⟩
  | stuck c cs hstuck =>
    rw [scan_stuck hstuck] at h
    cases h
  | lexeme kind c ds rest hlexeme shape ih =>
    have hend : q + (c :: ds ++ rest).length = q + (c :: ds).length + rest.length := by
      rw [List.length_append, Nat.add_assoc]
    rw [scan_piece hlexeme] at h
    obtain ⟨tokens, htokens, hsplit⟩ := ok_of_map h
    have hbehind {seen' : List Token} (hseen : tokens = seen' ++ after) :
        ∃ m, startOf (q + (c :: ds ++ rest).length) after = q + m ∧
          scan q 0 ((c :: ds ++ rest).take m) = .ok (piece q kind (c :: ds) ++ seen') := by
      rw [hseen] at htokens
      obtain ⟨m, hm, hscan⟩ := ih htokens
      refine ⟨(c :: ds).length + m, by rw [hend, hm, Nat.add_assoc], ?_⟩
      rw [scan_piece_of_beginning hlexeme, hscan]
      rfl
    cases kind with
    | none => exact hbehind hsplit
    | some kind =>
      cases seen with
      | nil =>
        -- the text is cut off right here
        rw [List.nil_append] at hsplit
        subst hsplit
        exact ⟨0, rfl, by rw [List.take_zero, scan]⟩
      | cons t seen =>
        rw [List.cons_append] at hsplit
        change ⟨kind, String.ofList (c :: ds), q⟩ :: tokens = _ at hsplit
        rw [List.cons.injEq] at hsplit
        obtain ⟨rfl, hseen⟩ := hsplit
        exact hbehind hseen

/-- A text that does not split does so up to some character, where no lexeme can start. -/
theorem scan_take_of_error {e : SyntaxError} (h : scan q 0 cs = .error e) :
    ∃ m c rest, e.position? = some (q + m) ∧ cs.drop m = c :: rest ∧ lexeme? c rest = none ∧
      ∃ ts, scan q 0 (cs.take m) = .ok ts := by
  induction cs using lexeme_induction generalizing q with
  | nil =>
    rw [scan] at h
    cases h
  | stuck c cs hstuck =>
    rw [scan_stuck hstuck, Except.error.injEq] at h
    subst h
    refine ⟨0, c, cs, ?_, rfl, hstuck, [], by rw [List.take_zero, scan]⟩
    unfold lexicalError
    split
    · rfl
    · split <;> rfl
  | lexeme kind c ds rest hlexeme shape ih =>
    rw [scan_piece hlexeme] at h
    obtain ⟨m, c', rest', hposition, hdrop, hstuck, ts, hscan⟩ := ih (error_of_map h)
    refine ⟨(c :: ds).length + m, c', rest', by rw [hposition, Nat.add_assoc], ?_, hstuck, ?_⟩
    · rw [List.drop_length_add_append, hdrop]
    · rw [scan_piece_of_beginning hlexeme, hscan]
      exact ⟨_, rfl⟩

end Token

end Stepwise
