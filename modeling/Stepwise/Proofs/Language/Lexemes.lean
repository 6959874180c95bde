import Stepwise.Proofs.Failure
import Stepwise.Proofs.Language.Scanning

namespace Stepwise

namespace Token

theorem of_mem_takeWhile {p : Char → Bool} {c : Char} {cs : List Char} (h : c ∈ cs.takeWhile p) :
    p c = true :=
  List.all_eq_true.mp List.all_takeWhile c h

theorem takeWhile_append_stop {p : Char → Bool} {b : Char} {cs rest : List Char}
    (h : p b = false) : (cs ++ b :: rest).takeWhile p = cs.takeWhile p := by
  induction cs with
  | nil => simp [h]
  | cons c cs ih =>
    rw [List.cons_append, List.takeWhile_cons, List.takeWhile_cons, ih]

theorem dropWhile_append_stop {p : Char → Bool} {b : Char} {cs rest : List Char}
    (h : p b = false) : (cs ++ b :: rest).dropWhile p = cs.dropWhile p ++ b :: rest := by
  induction cs with
  | nil => simp [h]
  | cons c cs ih =>
    rw [List.cons_append, List.dropWhile_cons, List.dropWhile_cons, ih]
    split <;> rfl

/-- What goes on with no word, numeral or arrow. -/
def separates (c : Char) : Bool := Text.isBlank c || c == '#' || c == '"'

theorem separates_of_isBlank {c : Char} (h : Text.isBlank c = true) : separates c = true := by
  simp [separates, h]

theorem ne_of_separates {b c : Char} (h : separates b = true) (hc : separates c = false) :
    b ≠ c := by
  rintro rfl
  rw [h] at hc
  cases hc

theorem isDigit_of_separates {b : Char} (h : separates b = true) : Text.isDigit b = false := by
  simp only [separates, Bool.or_eq_true, beq_iff_eq] at h
  rcases h with (h | rfl) | rfl
  · rw [Bool.eq_false_iff]
    intro hdigit
    rw [Text.isBlank_of_isDigit hdigit] at h
    cases h
  · decide
  · decide

theorem startsName_of_separates {b : Char} (h : separates b = true) : startsName b = false := by
  rw [Bool.eq_false_iff]
  intro hname
  obtain ⟨hblank, hcomment, -, -⟩ := not_of_startsName hname
  simp only [separates, hblank, Bool.false_or, Bool.or_eq_true, beq_iff_eq, hcomment,
    false_or] at h
  subst h
  exact absurd hname (by decide)

theorem continuesName_of_separates {b : Char} (h : separates b = true) :
    continuesName b = false := by
  have hdigit : ('0' ≤ b && b ≤ '9') = false := by
    rw [Bool.eq_false_iff]
    intro hb
    have hvalue : Text.isDigit b = true := by
      rw [Bool.and_eq_true, decide_eq_true_eq, decide_eq_true_eq] at hb
      have hbound : b.toNat ≤ 57 := Text.le_iff_toNat.mp hb.2
      simp [Text.isDigit, Text.digitValue?, hb, show b.toNat < 128 by omega]
    rw [isDigit_of_separates h] at hvalue
    cases hvalue
  have hmark : (b == '\'') = false := by simpa using ne_of_separates h (c := '\'') (by decide)
  simp [continuesName, startsName_of_separates h, hdigit, hmark]

section Separators

variable {b c : Char} {cs rest : List Char}

theorem exponentPart_append_stop (h : separates b = true) :
    exponentPart (cs ++ b :: rest) = exponentPart cs := by
  have hdigit := isDigit_of_separates h
  have hsign : b ≠ '+' ∧ b ≠ '-' := ⟨ne_of_separates h (by decide), ne_of_separates h (by decide)⟩
  have hletter : b ≠ 'e' ∧ b ≠ 'E' := ⟨ne_of_separates h (by decide), ne_of_separates h (by decide)⟩
  match cs with
  | [] => cases rest <;> simp [exponentPart, hletter]
  | [e] => simp [exponentPart, hdigit, hsign]
  | e :: s :: cs =>
    have hhead : (cs ++ b :: rest).head?.any Text.isDigit = cs.head?.any Text.isDigit := by
      cases cs <;> simp [hdigit]
    simp only [exponentPart, List.cons_append, hhead, takeWhile_append_stop hdigit,
      List.takeWhile_cons]

theorem fractionPart_append_stop (h : separates b = true) :
    fractionPart (cs ++ b :: rest) = fractionPart cs := by
  cases cs with
  | nil =>
    refine fractionPart_of_head ?_
    rintro c ⟨⟩
    exact ne_of_separates h (by decide)
  | cons c cs =>
    by_cases hc : c = '.'
    · subst hc
      simp only [fractionPart, List.cons_append, takeWhile_append_stop (isDigit_of_separates h)]
    · rw [List.cons_append, fractionPart_of_head (by simpa using hc),
        fractionPart_of_head (by simpa using hc)]

theorem prefix_fractionPart (cs : List Char) : fractionPart cs <+: cs := by
  unfold fractionPart
  split
  · exact (List.prefix_cons_inj _).mpr (List.takeWhile_prefix _)
  · exact List.nil_prefix

theorem prefix_exponentPart (cs : List Char) : exponentPart cs <+: cs := by
  unfold exponentPart
  split
  · split
    · split
      · exact (List.prefix_cons_inj _).mpr
          ((List.prefix_cons_inj _).mpr (List.takeWhile_prefix _))
      · split
        · exact (List.prefix_cons_inj _).mpr (List.takeWhile_prefix _)
        · exact List.nil_prefix
    · exact List.nil_prefix
  · exact List.nil_prefix

theorem numeral_append_stop (h : separates b = true) :
    numeral (cs ++ b :: rest) = numeral cs := by
  have hdigit := isDigit_of_separates h
  have hlength := (prefix_fractionPart (cs.dropWhile Text.isDigit)).length_le
  simp only [numeral, takeWhile_append_stop hdigit, dropWhile_append_stop hdigit,
    fractionPart_append_stop h, List.drop_append_of_le_length hlength, exponentPart_append_stop h]

theorem prefix_numeral (cs : List Char) : numeral cs <+: cs := by
  have hfraction := List.prefix_iff_eq_append.mp (prefix_fractionPart (cs.dropWhile Text.isDigit))
  obtain ⟨last, hlast⟩ := prefix_exponentPart
    ((cs.dropWhile Text.isDigit).drop (fractionPart (cs.dropWhile Text.isDigit)).length)
  refine ⟨last, ?_⟩
  simp only [numeral, List.append_assoc, hlast, hfraction, List.takeWhile_append_dropWhile]

/-- A numeral begins where it is looked for. -/
theorem numeral_cons (h : startsNumeral (c :: cs) = true) :
    ∃ ds, numeral (c :: cs) = c :: ds := by
  have hne : numeral (c :: cs) ≠ [] := by
    by_cases hc : c = '.'
    · subst hc
      have hpoint : Text.isDigit '.' = false := by decide
      simp [numeral, hpoint, fractionPart]
    · rw [startsNumeral_of_ne hc] at h
      simp [numeral, h]
  obtain ⟨d, ds, hds⟩ := List.exists_cons_of_ne_nil hne
  obtain ⟨tail, htail⟩ := prefix_numeral (c :: cs)
  rw [hds, List.cons_append, List.cons.injEq] at htail
  exact ⟨ds, by rw [hds, htail.1]⟩

theorem startsNumeral_append_stop (h : separates b = true) :
    startsNumeral (c :: (cs ++ b :: rest)) = startsNumeral (c :: cs) := by
  have hdigit := isDigit_of_separates h
  by_cases hc : c = '.'
  · subst hc
    cases cs <;> simp [startsNumeral, hdigit]
  · rw [startsNumeral_of_ne hc, startsNumeral_of_ne hc]

theorem head_append_stop (h : b ≠ '>') :
    ((cs ++ b :: rest).head? = some '>') = (cs.head? = some '>') := by
  cases cs <;> simp [h]

/-- What begins in front of a separator does not go beyond it, unless it is a comment or a
string. -/
theorem lexeme?_append_stop (h : separates b = true) (hcomment : c ≠ '#') (hquote : c ≠ '"') :
    lexeme? c (cs ++ b :: rest) = lexeme? c cs := by
  have hname := continuesName_of_separates h
  have harrow := ne_of_separates h (c := '>') (by decide)
  have hnumeral : numeral (c :: (cs ++ b :: rest)) = numeral (c :: cs) := by
    rw [← List.cons_append, numeral_append_stop h]
  simp only [lexeme?, hcomment, hquote, if_false, startsNumeral_append_stop h, hnumeral,
    takeWhile_append_stop hname, head_append_stop harrow]

theorem quotation?_append_newline : quotation? (cs ++ '\n' :: rest) = quotation? cs := by
  have hbody : (cs ++ '\n' :: rest).takeWhile (fun c => c != '"' && c != '\n') =
      cs.takeWhile fun c => c != '"' && c != '\n' := takeWhile_append_stop (by decide)
  have hlength : (cs.takeWhile fun c => c != '"' && c != '\n').length ≤ cs.length :=
    (List.takeWhile_prefix _).length_le
  simp only [quotation?, hbody, List.drop_append_of_le_length hlength]
  cases cs.drop (cs.takeWhile fun c => c != '"' && c != '\n').length <;> simp

theorem lexeme?_comment :
    lexeme? '#' cs = some (none, '#' :: cs.takeWhile fun d => d != '\n') := by
  have hblank : Text.isBlank '#' = false := by decide
  simp [lexeme?, hblank]

/-- A comment goes on up to a newline, or to the end of the text. -/
theorem takeWhile_line {text : List Char} (line : '\n' ∉ text) (ends : ∀ c ∈ rest.head?, c = '\n') :
    (text ++ rest).takeWhile (fun d => d != '\n') = text := by
  have hline : ∀ d ∈ text, (d != '\n') = true := by
    intro d hd
    rw [bne_iff_ne]
    rintro rfl
    exact line hd
  rw [List.takeWhile_append_of_pos hline]
  cases rest with
  | nil => simp
  | cons c rest => simp [ends c rfl]

theorem line_of_takeWhile (cs : List Char) : '\n' ∉ cs.takeWhile (fun d => d != '\n') ∧
    ∀ c ∈ (cs.dropWhile fun d => d != '\n').head?, c = '\n' := by
  refine ⟨fun hmem => ?_, fun c hc => ?_⟩
  · simpa using of_mem_takeWhile hmem
  · have hhead := List.head?_dropWhile_not (fun d => d != '\n') cs
    rw [Option.mem_def.mp hc] at hhead
    simpa using hhead

theorem comment_of_lexeme? {ds : List Char} {kind : Option Kind}
    (h : lexeme? '#' (ds ++ rest) = some (kind, '#' :: ds)) :
    '\n' ∉ ds ∧ ∀ c ∈ rest.head?, c = '\n' := by
  obtain ⟨hline, hends⟩ := line_of_takeWhile (ds ++ rest)
  have hsplit := List.takeWhile_append_dropWhile (p := fun d => d != '\n') (l := ds ++ rest)
  rw [lexeme?_comment, Option.some.injEq, Prod.mk.injEq, List.cons.injEq] at h
  rw [h.2.2] at hline hsplit
  rw [List.append_cancel_left hsplit] at hends
  exact ⟨hline, hends⟩

theorem lexeme?_quote : lexeme? '"' cs = (quotation? cs).map fun text => (some .string, text) := by
  have hblank : Text.isBlank '"' = false := by decide
  have hdigit : Text.isDigit '"' = false := by decide
  have hname : startsName '"' = false := by decide
  simp [lexeme?, hblank, hdigit, hname, startsNumeral]

/-- Nothing goes on behind a newline. -/
theorem lexeme?_append_newline : lexeme? c (cs ++ '\n' :: rest) = lexeme? c cs := by
  by_cases hcomment : c = '#'
  · subst hcomment
    have htext : (cs ++ '\n' :: rest).takeWhile (fun d => d != '\n') =
        cs.takeWhile fun d => d != '\n' := takeWhile_append_stop (by decide)
    rw [lexeme?_comment, lexeme?_comment, htext]
  by_cases hquote : c = '"'
  · subst hquote
    rw [lexeme?_quote, lexeme?_quote, quotation?_append_newline]
  · exact lexeme?_append_stop (by decide) hcomment hquote

/-- What follows a text does not close its string, unless it is a quotation mark. -/
theorem quotation?_concat (h : b ≠ '"') : quotation? (cs ++ [b]) = quotation? cs := by
  by_cases hb : b = '\n'
  · rw [hb, quotation?_append_newline]
  · simp only [quotation?, List.takeWhile_append]
    split
    · rename_i hall
      simp [h, hb, hall]
    · rename_i hstop
      have hlt : (cs.takeWhile fun c => c != '"' && c != '\n').length < cs.length :=
        Nat.lt_of_le_of_ne (List.takeWhile_prefix _).length_le hstop
      simp [List.head?_drop, List.getElem?_append, hlt]

theorem quotation?_eq_some {text : List Char} (h : quotation? cs = some text) :
    ∃ body rest, (∀ c ∈ body, c ≠ '"' ∧ c ≠ '\n') ∧ cs = body ++ '"' :: rest ∧
      text = '"' :: body ++ ['"'] := by
  unfold quotation? at h
  simp only [Option.ite_none_right_eq_some, Option.some.injEq] at h
  obtain ⟨hhead, rfl⟩ := h
  obtain ⟨rest, hrest⟩ := List.head?_eq_some_iff.mp hhead
  refine ⟨_, rest, fun c hc => ?_, ?_, rfl⟩
  · simpa using of_mem_takeWhile hc
  · rw [← hrest]
    exact (List.prefix_iff_eq_append.mp (List.takeWhile_prefix _)).symm

end Separators

/-- What can begin a text in front of the rest. -/
inductive Lexeme (rest : List Char) : Option Kind → Char → List Char → Prop
  | blank {c : Char} (blank : Text.isBlank c = true) : Lexeme rest none c []
  | comment {text : List Char} (line : '\n' ∉ text) (ends : ∀ c ∈ rest.head?, c = '\n') :
      Lexeme rest none '#' text
  | numeral {c : Char} {ds : List Char} (starts : startsNumeral (c :: ds ++ rest) = true)
      (text : numeral (c :: ds ++ rest) = c :: ds) : Lexeme rest (some .number) c ds
  | word {c : Char} {ds : List Char} (starts : startsName c = true)
      (continues : ∀ d ∈ ds, continuesName d = true) :
      Lexeme rest (some (wordKind (c :: ds))) c ds
  | string {body : List Char} (inside : ∀ c ∈ body, c ≠ '"' ∧ c ≠ '\n') :
      Lexeme rest (some .string) '"' (body ++ ['"'])
  | arrow : Lexeme rest (some .arrow) '=' ['>']
  | symbol {c : Char} {kind : Kind} (symbol : symbolKind? c = some kind) :
      Lexeme rest (some kind) c []

/-- What numerals are written with. -/
def inNumeral (c : Char) : Bool :=
  Text.isDigit c || c == '.' || c == 'e' || c == 'E' || c == '+' || c == '-'

theorem inNumeral_of_isDigit {c : Char} (h : Text.isDigit c = true) : inNumeral c = true := by
  simp [inNumeral, h]

theorem inNumeral_of_mem_fractionPart {c : Char} {cs : List Char} (h : c ∈ fractionPart cs) :
    inNumeral c = true := by
  unfold fractionPart at h
  split at h
  · rcases List.mem_cons.mp h with rfl | h
    · decide
    · exact inNumeral_of_isDigit (of_mem_takeWhile h)
  · cases h

theorem inNumeral_of_mem_exponentPart {c : Char} {cs : List Char} (h : c ∈ exponentPart cs) :
    inNumeral c = true := by
  unfold exponentPart at h
  split at h
  · rename_i e s rest
    have hletter (he : e = 'e' ∨ e = 'E') : inNumeral e = true := by
      rcases he with rfl | rfl <;> decide
    have hsign (hs : s = '+' ∨ s = '-') : inNumeral s = true := by
      rcases hs with rfl | rfl <;> decide
    split at h
    · rename_i he
      split at h
      · rename_i hs
        simp only [List.mem_cons] at h
        rcases h with rfl | rfl | h
        · exact hletter he
        · exact hsign hs.1
        · exact inNumeral_of_isDigit (of_mem_takeWhile h)
      · split at h
        · rcases List.mem_cons.mp h with rfl | h
          · exact hletter he
          · exact inNumeral_of_isDigit (of_mem_takeWhile h)
        · cases h
    · cases h
  · cases h

theorem inNumeral_of_mem_numeral {c : Char} {cs : List Char} (h : c ∈ numeral cs) :
    inNumeral c = true := by
  simp only [numeral, List.mem_append] at h
  rcases h with (h | h) | h
  · exact inNumeral_of_isDigit (of_mem_takeWhile h)
  · exact inNumeral_of_mem_fractionPart h
  · exact inNumeral_of_mem_exponentPart h

/-- No separator has a property that separators lack. -/
theorem separates_eq_false {p : Char → Bool} (hp : ∀ b, separates b = true → p b = false) {c : Char}
    (h : p c = true) : separates c = false := by
  rw [Bool.eq_false_iff]
  intro hc
  rw [hp c hc] at h
  cases h

theorem inNumeral_of_separates {b : Char} (h : separates b = true) : inNumeral b = false := by
  have hne {c : Char} (hc : separates c = false) : b ≠ c := ne_of_separates h hc
  simp [inNumeral, isDigit_of_separates h, hne (c := '.') (by decide), hne (c := 'e') (by decide),
    hne (c := 'E') (by decide), hne (c := '+') (by decide), hne (c := '-') (by decide)]

theorem separates_of_symbolKind? {c : Char} {kind : Kind} (h : symbolKind? c = some kind) :
    separates c = false := by
  have hsymbol := isSymbol_of_symbolKind? h
  simp only [isSymbol, Bool.and_eq_true, Bool.not_eq_true', bne_iff_ne, ne_eq] at hsymbol
  simp [separates, hsymbol]

/-- What can begin a text in front of the rest, where words, numerals and symbols are all alike: no
separator is in them. -/
inductive Part (rest : List Char) : Option Kind → Char → List Char → Prop
  | blank {c : Char} (blank : Text.isBlank c = true) : Part rest none c []
  | comment {text : List Char} (line : '\n' ∉ text) (ends : ∀ c ∈ rest.head?, c = '\n') :
      Part rest none '#' text
  | string {body : List Char} (inside : ∀ c ∈ body, c ≠ '"' ∧ c ≠ '\n') :
      Part rest (some .string) '"' (body ++ ['"'])
  | solid {c : Char} {ds : List Char} {kind : Kind}
      (solid : ∀ d ∈ c :: ds, separates d = false) : Part rest (some kind) c ds

theorem Lexeme.part {rest : List Char} {kind : Option Kind} {c : Char} {ds : List Char}
    (h : Lexeme rest kind c ds) : Part rest kind c ds := by
  cases h with
  | blank blank => exact .blank blank
  | comment line ends => exact .comment line ends
  | string inside => exact .string inside
  | arrow =>
    refine .solid ?_
    rw [List.forall_mem_cons, List.forall_mem_singleton]
    exact ⟨by decide, by decide⟩
  | numeral starts text =>
    refine .solid fun d hd => ?_
    rw [← text] at hd
    exact separates_eq_false (fun _ => inNumeral_of_separates) (inNumeral_of_mem_numeral hd)
  | word starts continues =>
    have hname {d : Char} (hd : continuesName d = true) : separates d = false :=
      separates_eq_false (fun _ => continuesName_of_separates) hd
    refine .solid ?_
    rw [List.forall_mem_cons]
    exact ⟨hname (by simp [continuesName, starts]), fun d hd => hname (continues d hd)⟩
  | symbol symbol =>
    refine .solid ?_
    rw [List.forall_mem_singleton]
    exact separates_of_symbolKind? symbol

theorem lexeme_of_lexeme? {c : Char} {cs text : List Char} {kind : Option Kind}
    (h : lexeme? c cs = some (kind, text)) :
    ∃ ds rest, text = c :: ds ∧ cs = ds ++ rest ∧ Lexeme rest kind c ds := by
  by_cases hcomment : c = '#'
  · subst hcomment
    rw [lexeme?_comment] at h
    cases h
    obtain ⟨hline, hends⟩ := line_of_takeWhile cs
    exact ⟨_, _, rfl, List.takeWhile_append_dropWhile.symm, .comment hline hends⟩
  by_cases hquote : c = '"'
  · subst hquote
    rw [lexeme?_quote, Option.map_eq_some_iff] at h
    obtain ⟨_, hquotation, hk⟩ := h
    cases hk
    obtain ⟨body, rest, hbody, rfl, rfl⟩ := quotation?_eq_some hquotation
    exact ⟨body ++ ['"'], rest, rfl, by simp, .string hbody⟩
  unfold lexeme? at h
  split at h
  · cases h
    exact ⟨[], cs, rfl, rfl, .blank ‹_›⟩
  split at h
  · rename_i hstarts
    cases h
    obtain ⟨ds, hds⟩ := numeral_cons hstarts
    obtain ⟨rest, hrest⟩ := prefix_numeral (c :: cs)
    rw [hds, List.cons_append, List.cons.injEq] at hrest
    have hsplit : c :: ds ++ rest = c :: cs := by rw [List.cons_append, hrest.2]
    exact ⟨ds, rest, hds, hrest.2.symm, .numeral (hsplit ▸ hstarts) (by rw [hsplit, hds])⟩
  split at h
  · rename_i hstarts
    cases h
    exact ⟨_, cs.dropWhile continuesName, rfl, List.takeWhile_append_dropWhile.symm,
      .word hstarts fun d hd => of_mem_takeWhile hd⟩
  split at h
  · rename_i harrow
    subst harrow
    split at h
    · rename_i hhead
      cases h
      obtain ⟨rest, rfl⟩ := List.head?_eq_some_iff.mp hhead
      exact ⟨['>'], rest, rfl, rfl, .arrow⟩
    · cases h
  · obtain ⟨kind, hkind, hk⟩ := Option.map_eq_some_iff.mp h
    cases hk
    exact ⟨[], cs, rfl, rfl, .symbol hkind⟩

/-- Induction on the lexemes of a text, up to its end or to where nothing can start. -/
theorem lexeme_induction {motive : List Char → Prop} (nil : motive [])
    (stuck : ∀ c cs, lexeme? c cs = none → motive (c :: cs))
    (lexeme : ∀ kind c ds rest, lexeme? c (ds ++ rest) = some (kind, c :: ds) →
      Lexeme rest kind c ds → motive rest → motive (c :: ds ++ rest)) (cs : List Char) :
    motive cs := by
  induction hn : cs.length using Nat.strongRecOn generalizing cs with
  | _ n ih =>
    cases cs with
    | nil => exact nil
    | cons c cs =>
      cases h : lexeme? c cs with
      | none => exact stuck c cs h
      | some result =>
        obtain ⟨kind, text⟩ := result
        obtain ⟨ds, rest, rfl, rfl, hlexeme⟩ := lexeme_of_lexeme? h
        have hlt : rest.length < n := by
          rw [← hn, List.length_cons, List.length_append]
          omega
        exact lexeme kind c ds rest h hlexeme (ih _ hlt rest rfl)

/-- The token that a lexeme makes, unless it is dropped. -/
def piece (p : Nat) (kind : Option Kind) (text : List Char) : List Token :=
  (kind.map fun k => ⟨k, String.ofList text, p⟩).toList

variable {p : Nat} {c : Char} {cs ds rest : List Char}

theorem scan_stuck (h : lexeme? c cs = none) : scan p 0 (c :: cs) = .error (lexicalError c p) := by
  rw [scan]
  simp only [h]

theorem scan_piece {kind : Option Kind} (h : lexeme? c (ds ++ rest) = some (kind, c :: ds)) :
    scan p 0 (c :: ds ++ rest) =
      (scan (p + (c :: ds).length) 0 rest).map (piece p kind (c :: ds) ++ ·) := by
  cases kind with
  | some kind => exact scan_lexeme h
  | none =>
    rw [List.cons_append, scan]
    simp only [h, List.length_cons, Nat.add_sub_cancel]
    rw [scan_skip, Nat.add_right_comm, Nat.add_assoc]
    cases scan (p + (ds.length + 1)) 0 rest <;> rfl

/-- The text is a row of lexemes from the position on, and they make the tokens. -/
inductive Scanned : Nat → List Token → List Char → Prop
  | nil {p : Nat} : Scanned p [] []
  | dropped {p : Nat} {c : Char} {ds rest : List Char} {ts : List Token}
      (lexeme : Lexeme rest none c ds) (behind : Scanned (p + (c :: ds).length) ts rest) :
      Scanned p ts (c :: ds ++ rest)
  | token {p : Nat} {kind : Kind} {c : Char} {ds rest : List Char} {ts : List Token}
      (lexeme : Lexeme rest (some kind) c ds) (behind : Scanned (p + (c :: ds).length) ts rest) :
      Scanned p (⟨kind, String.ofList (c :: ds), p⟩ :: ts) (c :: ds ++ rest)

theorem scanned_of_scan {ts : List Token} (h : scan p 0 cs = .ok ts) : Scanned p ts cs := by
  induction cs using lexeme_induction generalizing p ts with
  | nil =>
    rw [scan] at h
    cases h
    exact .nil
  | stuck c cs hstuck =>
    rw [scan_stuck hstuck] at h
    cases h
  | lexeme kind c ds rest hlexeme shape ih =>
    rw [scan_piece hlexeme] at h
    obtain ⟨us, hus, rfl⟩ := ok_of_map h
    cases kind with
    | none => exact .dropped shape (ih hus)
    | some kind => exact .token shape (ih hus)

/-- The tokens of a text are those up to a newline and those behind it. -/
theorem scan_append_newline : scan p 0 (cs ++ '\n' :: rest) = do
    let ts ← scan p 0 cs
    let us ← scan (p + cs.length + 1) 0 rest
    return ts ++ us := by
  induction cs using lexeme_induction generalizing p with
  | nil =>
    rw [List.nil_append, scan_blank (by decide)]
    rw [scan]
    simp only [bind, Except.bind, List.length_nil, Nat.add_zero, List.nil_append]
    cases scan (p + 1) 0 rest <;> rfl
  | stuck c cs h =>
    have h' : lexeme? c (cs ++ '\n' :: rest) = none := lexeme?_append_newline.trans h
    rw [List.cons_append, scan_stuck h', scan_stuck h]
    rfl
  | lexeme kind c ds more h hlexeme ih =>
    have h' : lexeme? c (ds ++ (more ++ '\n' :: rest)) = some (kind, c :: ds) := by
      rw [← List.append_assoc]
      exact lexeme?_append_newline.trans h
    have hlength : p + (c :: ds).length + more.length + 1 =
        p + (c :: ds ++ more).length + 1 := by
      simp only [List.length_append]
      omega
    rw [List.append_assoc, scan_piece h', scan_piece h, ih, hlength]
    cases scan (p + (c :: ds).length) 0 more with
    | error e => rfl
    | ok ts =>
      cases scan (p + (c :: ds ++ more).length + 1) 0 rest with
      | error e => rfl
      | ok us => simp [Except.map, bind, Except.bind, pure, Except.pure]

end Token

end Stepwise
