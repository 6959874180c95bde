import Stepwise.Interpreter.Line
import Stepwise.Proofs.Language.BareTokens

namespace Stepwise

namespace Text

variable {c : Char} {cs front tail : List Char}

theorem blank_or_first (cs : List Char) : (∀ c ∈ cs, isBlank c = true) ∨
    ∃ front c tail, cs = front ++ c :: tail ∧ (∀ d ∈ front, isBlank d = true) ∧
      isBlank c = false := by
  induction cs with
  | nil => exact Or.inl (by simp)
  | cons c cs ih =>
    cases hc : isBlank c with
    | false => exact Or.inr ⟨[], c, cs, rfl, by simp, hc⟩
    | true =>
      rcases ih with hall | ⟨front, d, tail, rfl, hfront, hd⟩
      · exact Or.inl (List.forall_mem_cons.mpr ⟨hc, hall⟩)
      · exact Or.inr ⟨c :: front, d, tail, rfl, List.forall_mem_cons.mpr ⟨hc, hfront⟩, hd⟩

theorem trimStart_of_first (hfront : ∀ d ∈ front, isBlank d = true) (hc : isBlank c = false) :
    trimStart (front ++ c :: tail) = c :: tail := by
  rw [trimStart, List.dropWhile_append_of_pos hfront, List.dropWhile_cons]
  simp [hc]

theorem trimEnd_cons (hc : isBlank c = false) : trimEnd (c :: cs) = c :: trimEnd cs := by
  rw [trimEnd, List.reverse_cons, List.dropWhile_append]
  split
  · rename_i hblank
    rw [List.isEmpty_iff] at hblank
    simp [trimEnd, hblank, hc]
  · simp [trimEnd]

theorem exists_trimEnd (cs : List Char) :
    ∃ back, cs = trimEnd cs ++ back ∧ ∀ c ∈ back, isBlank c = true := by
  refine ⟨(cs.reverse.takeWhile isBlank).reverse, ?_, fun c hc => ?_⟩
  · rw [trimEnd, ← List.reverse_append, List.takeWhile_append_dropWhile, List.reverse_reverse]
  · exact Token.of_mem_takeWhile (List.mem_reverse.mp hc)

theorem toList_trim_of_first {s : String} (hs : s.toList = front ++ c :: tail)
    (hfront : ∀ d ∈ front, isBlank d = true) (hc : isBlank c = false) :
    (trim s).toList = c :: trimEnd tail := by
  rw [trim, hs, trimStart_of_first hfront hc, trimEnd_cons hc, String.toList_ofList]

theorem trim_of_blank {s : String} (h : ∀ c ∈ s.toList, isBlank c = true) : trim s = "" := by
  have hstart : trimStart (s.toList ++ []) = [] := List.dropWhile_append_of_pos h
  rw [List.append_nil] at hstart
  rw [trim, hstart]
  rfl

end Text

/-- What a text begins with when its first line is for this. -/
inductive Line.Begins : List Char → Line → Prop
  | blank {cs : List Char} (blanks : ∀ c ∈ cs, Text.isBlank c = true) : Begins cs .blank
  | comment {front tail : List Char} (blanks : ∀ c ∈ front, Text.isBlank c = true) :
      Begins (front ++ '#' :: tail) .blank
  | command {front tail : List Char} (blanks : ∀ c ∈ front, Text.isBlank c = true)
      (command : Command) : Begins (front ++ ':' :: tail) (.command command)
  | program {front tail : List Char} {c : Char} (blanks : ∀ c ∈ front, Text.isBlank c = true)
      (first : Text.isBlank c = false) (comment : c ≠ '#') (command : c ≠ ':') (text : String) :
      Begins (front ++ c :: tail) (.program text)

namespace Line

theorem ofText_of_first {s : String} {front tail : List Char} {c : Char}
    (hs : s.toList = front ++ c :: tail) (hfront : ∀ d ∈ front, Text.isBlank d = true)
    (hc : Text.isBlank c = false) (hcomment : c ≠ '#') (hcommand : c ≠ ':') :
    Line.ofText s = .program (Text.trim s) := by
  rw [Line.ofText, ofTrimmed, Text.toList_trim_of_first hs hfront hc]
  split
  · rename_i h
    cases h
  · rename_i h
    cases h
    exact absurd rfl hcomment
  · rename_i h
    cases h
    exact absurd rfl hcommand
  · rfl

theorem begins (s : String) : Begins s.toList (Line.ofText s) := by
  rcases Text.blank_or_first s.toList with hblank | ⟨front, c, tail, hs, hfront, hc⟩
  · rw [Line.ofText, Text.trim_of_blank hblank]
    exact .blank hblank
  · by_cases hcomment : c = '#'
    · subst hcomment
      rw [Line.ofText, ofTrimmed, Text.toList_trim_of_first hs hfront hc, hs]
      exact .comment hfront
    by_cases hcommand : c = ':'
    · subst hcommand
      rw [Line.ofText, ofTrimmed, Text.toList_trim_of_first hs hfront hc, hs]
      exact .command hfront _
    · rw [ofText_of_first hs hfront hc hcomment hcommand, hs]
      exact .program hfront hc hcomment hcommand _

theorem begins_program {s text : String} (h : Line.ofText s = .program text) :
    ∃ front c tail, s.toList = front ++ c :: tail ∧ (∀ d ∈ front, Text.isBlank d = true) ∧
      Text.isBlank c = false ∧ c ≠ '#' ∧ c ≠ ':' := by
  have hbegins := begins s
  rw [h] at hbegins
  generalize s.toList = cs at hbegins ⊢
  cases hbegins with
  | program blanks first comment command => exact ⟨_, _, _, rfl, blanks, first, comment, command⟩

/-- A text goes on as it began. -/
theorem ofText_append {s text : String} (h : Line.ofText s = .program text) (more : String) :
    Line.ofText (s ++ more) = .program (Text.trim (s ++ more)) := by
  obtain ⟨front, c, tail, hs, hfront, hc, hcomment, hcommand⟩ := begins_program h
  have happend : (s ++ more).toList = front ++ c :: (tail ++ more.toList) := by
    simp [String.toList_append, hs]
  exact ofText_of_first happend hfront hc hcomment hcommand

end Line

open Token

theorem bareTokens?_trim (s : String) :
    bareTokens? (Text.trim s).toList = bareTokens? s.toList := by
  rcases Text.blank_or_first s.toList with hblank | ⟨front, c, tail, hs, hfront, hc⟩
  · rw [Text.trim_of_blank hblank, bareTokens?_of_blank hblank]
    exact bareTokens?_nil
  · obtain ⟨back, htail, hback⟩ := Text.exists_trimEnd tail
    have hsplit : s.toList = front ++ (c :: Text.trimEnd tail ++ back) := by
      rw [hs, List.cons_append, ← htail]
    rw [Text.toList_trim_of_first hs hfront hc, hsplit, bareTokens?_blanks hfront,
      bareTokens?_append_blanks hback]

theorem lexeme?_command {rest : List Char} : lexeme? ':' rest = none := by
  have hblank : Text.isBlank ':' = false := by decide
  have hdigit : Text.isDigit ':' = false := by decide
  have hname : startsName ':' = false := by decide
  simp [lexeme?, hblank, hdigit, hname, startsNumeral, symbolKind?, Operator.ofSymbol?]

section Kinds

variable {line : String}

theorem bareTokens?_of_blank_line (h : Line.ofText line = .blank) (single : '\n' ∉ line.toList) :
    bareTokens? line.toList = some [] := by
  have hbegins := Line.begins line
  rw [h] at hbegins
  generalize line.toList = cs at hbegins single ⊢
  cases hbegins with
  | blank blanks => exact bareTokens?_of_blank blanks
  | comment blanks =>
    rw [List.mem_append, List.mem_cons, not_or, not_or] at single
    rw [bareTokens?_blanks blanks, bareTokens?_of_comment single.2.2]

theorem openParentheses_of_blank (h : Line.ofText line = .blank) (single : '\n' ∉ line.toList) :
    openParentheses line = 0 :=
  openParentheses_of_bareTokens? (bareTokens?_of_blank_line h single)

theorem readProgram_of_blank (h : Line.ofText line = .blank) (single : '\n' ∉ line.toList) :
    readProgram line = .ok [] := by
  obtain ⟨us, htokens, hbare⟩ := bareTokens?_eq_some.mp (bareTokens?_of_blank_line h single)
  rw [List.map_eq_nil_iff] at hbare
  subst hbare
  rw [readProgram, tokensOf, htokens]
  rfl

/-- No text that begins with a command can be split into tokens. -/
theorem bareTokens?_of_command {c : Command} (h : Line.ofText line = .command c)
    (rest : List Char) : bareTokens? (line.toList ++ rest) = none := by
  have hbegins := Line.begins line
  rw [h] at hbegins
  generalize line.toList = cs at hbegins ⊢
  cases hbegins with
  | command blanks =>
    rw [List.append_assoc, bareTokens?_blanks blanks]
    exact bareTokens?_stuck lexeme?_command

end Kinds

end Stepwise
