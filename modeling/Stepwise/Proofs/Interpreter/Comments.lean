import Stepwise.Proofs.Interpreter.AlikeLines
import Stepwise.Proofs.Language.Comments

namespace Stepwise

open Token

/-- If a character in the comment ends a line, the further lines are blank or comments again. -/
def Inert (comment : List Char) : Prop :=
  ∀ line ∈ (Text.splitLines comment).tail, Line.ofText (String.ofList line) = .blank

theorem inert_of_length {comment : List Char} (h : (Text.splitLines comment).length ≤ 1) :
    Inert comment := by
  have htail : (Text.splitLines comment).tail = [] := by
    apply List.eq_nil_of_length_eq_zero
    rw [List.length_tail]
    omega
  rw [Inert, htail]
  exact List.forall_mem_nil _

/-- Texts with the same tokens on their first lines. The lines behind are alike, unless nothing is
done for them. -/
structure FirstAlike (cs ds : List Char) : Prop where
  first : bareTokens? (Text.firstLine cs) = bareTokens? (Text.firstLine ds)
  behind : bareTokens? (Text.firstLine cs) ≠ none →
    AlikeLines (Text.splitLines (Text.behindFirst cs)) (Text.splitLines (Text.behindFirst ds))

variable {c : Char} {cs ds rest text : List Char} {kind : Option Kind} {ts us : List Token}

theorem splits_firstLine (h : bareTokens? (Text.firstLine cs) = some ts) :
    Splits (Text.firstLine cs) ts :=
  ⟨h, (Text.isLine_firstLine cs).newline_notMem⟩

/-- A first line cannot be for a command in a text that splits into tokens. -/
theorem torn_firstLine (h : bareTokens? cs = some ts)
    (torn : bareTokens? (Text.firstLine cs) = none) : Torn (Text.firstLine cs) := by
  refine ⟨torn, ?_⟩
  cases hkind : Line.ofText (String.ofList (Text.firstLine cs)) with
  | program text => exact ⟨text, rfl⟩
  | blank =>
    have hsingle := (Text.isLine_firstLine cs).newline_notMem
    have hempty := bareTokens?_of_blank_line hkind (by rwa [String.toList_ofList])
    rw [String.toList_ofList, torn] at hempty
    cases hempty
  | command command =>
    have hsplit : Text.firstLine cs ++ cs.dropWhile (fun c => !Text.isLineBreak c) = cs :=
      List.takeWhile_append_dropWhile
    have hnone := bareTokens?_of_command hkind (cs.dropWhile fun c => !Text.isLineBreak c)
    rw [String.toList_ofList, hsplit, h] at hnone
    cases hnone

theorem FirstAlike.lines (h : FirstAlike cs ds) (left : bareTokens? cs = some ts)
    (right : bareTokens? ds = some us) (empty : cs = [] → ds = []) :
    AlikeLines (Text.splitLines cs) (Text.splitLines ds) := by
  by_cases hcs : cs = []
  · rw [hcs, empty hcs]
    exact .nil
  rw [Text.splitLines_nonempty hcs]
  have hfirst := h.first
  cases hts : bareTokens? (Text.firstLine cs) with
  | some first =>
    have hbehind := h.behind (by simp [hts])
    rw [hts] at hfirst
    by_cases hds : ds = []
    · subst hds
      rw [Text.firstLine, List.takeWhile_nil, bareTokens?_nil] at hfirst
      cases hfirst
      exact .extra (splits_firstLine hts) hbehind
    · rw [Text.splitLines_nonempty hds]
      exact .same (splits_firstLine hts) (splits_firstLine hfirst.symm) hbehind
  | none =>
    rw [hts] at hfirst
    have hds : ds ≠ [] := by
      rintro rfl
      rw [Text.firstLine, List.takeWhile_nil, bareTokens?_nil] at hfirst
      cases hfirst
    rw [Text.splitLines_nonempty hds]
    exact .torn (torn_firstLine left hts) (torn_firstLine right hfirst.symm)

theorem AlikeLines.extras {front lines others : List (List Char)}
    (empty : ∀ line ∈ front, Splits line []) (rest : AlikeLines lines others) :
    AlikeLines (front ++ lines) others := by
  induction front with
  | nil => exact rest
  | cons line front ih =>
    rw [List.forall_mem_cons] at empty
    exact .extra empty.1 (ih empty.2)

/-- The lines of a comment behind its first come to nothing. -/
theorem splits_of_inert (inert : Inert text) :
    ∀ further ∈ (Text.splitLines text).tail, Splits further [] := by
  intro further hfurther
  have hsingle := (Text.isLine_of_mem_splitLines (List.mem_of_mem_tail hfurther)).newline_notMem
  have hblank := inert further hfurther
  refine ⟨?_, hsingle⟩
  have htokens := bareTokens?_of_blank_line hblank (by rwa [String.toList_ofList])
  rwa [String.toList_ofList] at htokens

theorem splitLines_behind_comment (text : List Char) (ends : ∀ c ∈ rest.head?, c = '\n') :
    ∃ last, (last = [] ∨ last = [[]]) ∧
      Text.splitLines (Text.behindFirst ('#' :: text ++ rest)) =
        (Text.splitLines ('#' :: text)).tail ++ last ++
          Text.splitLines (Text.behindFirst rest) := by
  have hwhole : Text.splitLines ('#' :: text ++ rest) = Text.firstLine ('#' :: text ++ rest) ::
      Text.splitLines (Text.behindFirst ('#' :: text ++ rest)) := Text.splitLines_nonempty (by simp)
  cases rest with
  | nil =>
    refine ⟨[], Or.inl rfl, ?_⟩
    rw [List.append_nil] at hwhole ⊢
    rw [hwhole]
    simp [Text.behindFirst, Text.splitLines]
  | cons c rest =>
    have hc : c = '\n' := ends c rfl
    subst hc
    obtain ⟨last, hlast, hsplit⟩ := Text.splitLines_append_newline ('#' :: text) rest
    refine ⟨last, hlast, ?_⟩
    have hcomment : Text.splitLines ('#' :: text) ≠ [] := by
      rw [Text.splitLines_nonempty (by simp)]
      simp
    rw [hwhole] at hsplit
    rw [Text.behindFirst_newline, ← List.tail_append_of_ne_nil, ← List.tail_append_of_ne_nil,
      ← hsplit, List.tail_cons]
    · simp [hcomment]
    · exact hcomment

namespace FirstAlike

/-- A comment in front of one of the texts. -/
theorem comment (ends : ∀ c ∈ rest.head?, c = '\n') (inert : Inert ('#' :: text))
    (first : bareTokens? (Text.firstLine ds) = some []) (h : FirstAlike rest ds) :
    FirstAlike ('#' :: text ++ rest) ds := by
  have hsign : Text.IsLine ['#'] := by
    rw [Text.IsLine, List.forall_mem_singleton]
    decide
  have hfirst : Text.firstLine ('#' :: text ++ rest) = '#' :: Text.firstLine (text ++ rest) :=
    Text.firstLine_append hsign
  constructor
  · rw [hfirst, first]
    exact bareTokens?_of_comment (Text.isLine_firstLine _).newline_notMem
  · intro _
    obtain ⟨last, hlast, hsplit⟩ := splitLines_behind_comment text ends
    rw [hsplit]
    apply AlikeLines.extras
    · intro line hline
      rcases List.mem_append.mp hline with htail | hmem
      · exact splits_of_inert inert line htail
      · have hempty : line = [] := by
          rcases hlast with rfl | rfl
          · cases hmem
          · exact List.mem_singleton.mp hmem
        subst hempty
        exact ⟨bareTokens?_nil, by simp⟩
    · apply h.behind
      rw [h.first, first]
      simp

/-- A part in front of both texts that does not end a line. -/
theorem prepend {rest' : List Char} (part : Part rest kind c ds)
    (h : lexeme? c (ds ++ rest) = some (kind, c :: ds)) (comment : c ≠ '#')
    (line : Text.IsLine (c :: ds)) (same : unbroken rest' = unbroken rest)
    (alike : FirstAlike rest rest') : FirstAlike (c :: ds ++ rest) (c :: ds ++ rest') := by
  have htokens (more : List Char) (hmore : unbroken more = unbroken rest) :
      bareTokens? (Text.firstLine (c :: ds ++ more)) =
        (bareTokens? (Text.firstLine more)).map (piece 0 kind (c :: ds) ++ ·) := by
    rw [Text.firstLine_append line]
    apply bareTokens?_lexeme
    exact lexeme?_of_unbroken comment part h (unbroken_firstLine.trans hmore)
  constructor
  · rw [htokens rest rfl, htokens rest' same, alike.first]
  · intro hsome
    rw [Text.behindFirst_append line, Text.behindFirst_append line]
    apply alike.behind
    intro hnone
    rw [htokens rest rfl, hnone] at hsome
    exact hsome rfl

/-- Both texts end their first lines in the middle of a string. -/
theorem torn {body rest' : List Char} (inside : ∀ c ∈ body, c ≠ '"' ∧ c ≠ '\n')
    (broken : ¬Text.IsLine body) :
    FirstAlike ('"' :: (body ++ ['"']) ++ rest) ('"' :: (body ++ ['"']) ++ rest') := by
  have hsign : Text.IsLine ['"'] := by
    rw [Text.IsLine, List.forall_mem_singleton]
    decide
  have hfirst (more : List Char) :
      Text.firstLine ('"' :: (body ++ ['"']) ++ more) = '"' :: Text.firstLine body := by
    have hquote : Text.firstLine (['"'] ++ (body ++ ('"' :: more))) =
        ['"'] ++ Text.firstLine (body ++ '"' :: more) := Text.firstLine_append hsign
    rw [Text.firstLine_append_of_break broken] at hquote
    simpa using hquote
  have htorn : bareTokens? ('"' :: Text.firstLine body) = none := by
    apply bareTokens?_stuck
    have hopen : '"' ∉ Text.firstLine body := by
      intro hmem
      exact (inside '"' ((List.takeWhile_prefix _).subset hmem)).1 rfl
    rw [lexeme?_quote, quotation?_eq_none hopen]
    rfl
  constructor
  · rw [hfirst, hfirst]
  · intro hsome
    rw [hfirst] at hsome
    exact absurd htorn hsome

/-- Both texts end their first lines in front of the rest. -/
theorem lineBreak (ends : Text.isLineBreak c = true) (left : bareTokens? rest = some ts)
    (h : FirstAlike rest (withoutCommentsFrom .code rest)) :
    FirstAlike (c :: rest) (c :: withoutCommentsFrom .code rest) := by
  have right := bareTokens?_withoutComments left
  have hempty : rest = [] → withoutCommentsFrom .code rest = [] := by
    rintro rfl
    rfl
  have hnewline : rest.head? = some '\n' → (withoutCommentsFrom .code rest).head? = some '\n' := by
    intro hhead
    obtain ⟨more, rfl⟩ := List.head?_eq_some_iff.mp hhead
    rfl
  constructor
  · rw [Text.firstLine_break ends, Text.firstLine_break ends]
  intro _
  generalize withoutCommentsFrom .code rest = others at h right hempty hnewline ⊢
  by_cases hjoined : c = '\r' ∧ others.head? = some '\n'
  · -- the newline behind a comment ends the same line as the carriage return in front of it
    obtain ⟨rfl, hhead⟩ := hjoined
    obtain ⟨more, rfl⟩ := List.head?_eq_some_iff.mp hhead
    have hfirst := h.first
    rw [Text.firstLine_break (by decide), bareTokens?_nil] at hfirst
    have hbehind := h.behind (by simp [hfirst])
    rw [Text.behindFirst_newline] at hbehind
    have hothers : Text.behindFirst ('\r' :: '\n' :: more) = more := rfl
    rw [hothers]
    by_cases hrest : rest.head? = some '\n'
    · obtain ⟨rest, rfl⟩ := List.head?_eq_some_iff.mp hrest
      exact hbehind
    · have hne : rest ≠ [] := by
        rintro rfl
        cases hempty rfl
      rw [Text.behindFirst_break ends (fun _ => hrest), Text.splitLines_nonempty hne]
      exact .extra (splits_firstLine hfirst) hbehind
  · have hothers : c = '\r' → '\n' ∉ others.head? := by
      intro hreturn hhead
      exact hjoined ⟨hreturn, hhead⟩
    have hrest : c = '\r' → '\n' ∉ rest.head? := by
      intro hreturn hhead
      exact hothers hreturn (hnewline hhead)
    rw [Text.behindFirst_break ends hrest, Text.behindFirst_break ends hothers]
    exact h.lines left right hempty

end FirstAlike

/-- A text and the text without its comments, from where a lexeme begins. -/
theorem firstAlike_withoutComments (h : bareTokens? cs = some ts)
    (inert : ∀ comment ∈ commentsFrom .code cs, Inert comment) :
    FirstAlike cs (withoutCommentsFrom .code cs) := by
  induction cs using lexeme_induction generalizing ts with
  | nil => exact ⟨rfl, fun _ => .nil⟩
  | stuck c cs hstuck =>
    rw [bareTokens?_stuck hstuck] at h
    cases h
  | lexeme kind c ds rest hlexeme shape ih =>
    rw [bareTokens?_lexeme hlexeme] at h
    obtain ⟨us, hus, rfl⟩ := Option.map_eq_some_iff.mp h
    have hpart := shape.part
    obtain ⟨hwithout, hcomments⟩ := withoutCommentsFrom_part hpart
    rw [hcomments, List.forall_mem_append] at inert
    have halike := ih hus inert.2
    rw [hwithout]
    by_cases hcomment : c = '#'
    · subst hcomment
      obtain ⟨-, hends⟩ := comment_of_lexeme? hlexeme
      have hfirst : bareTokens? (Text.firstLine (withoutCommentsFrom .code rest)) = some [] := by
        cases rest with
        | nil => exact bareTokens?_nil
        | cons c rest =>
          have hc : c = '\n' := hends c rfl
          subst hc
          exact bareTokens?_nil
      exact .comment hends (inert.1 _ List.mem_cons_self) hfirst halike
    rw [if_neg hcomment]
    by_cases hline : Text.IsLine (c :: ds)
    · exact .prepend hpart hlexeme hcomment hline unbroken_withoutComments halike
    cases hpart with
    | comment => exact absurd rfl hcomment
    | blank blank =>
      have hends : Text.isLineBreak c = true := by simpa [Text.IsLine] using hline
      exact .lineBreak hends hus halike
    | @string body inside =>
      have hbroken : ¬Text.IsLine body := by
        intro hbody
        apply hline
        have hquote : Text.isLineBreak '"' = false := by decide
        simpa [Text.IsLine, hquote, or_imp, forall_and] using hbody
      exact .torn inside hbroken
    | solid solid =>
      exfalso
      apply hline
      intro d hd
      rw [Bool.eq_false_iff]
      intro hbreak
      have hseparates := separates_of_isBlank (Text.isBlank_of_isLineBreak hbreak)
      rw [solid d hd] at hseparates
      cases hseparates

theorem alikeLines_withoutComments {text : String} {tokens : List Token}
    (h : tokenize text = .ok tokens) (inert : ∀ comment ∈ comments text, Inert comment) :
    AlikeLines (Text.splitLines text.toList)
      (Text.splitLines (withoutCommentsFrom .code text.toList)) := by
  have left : bareTokens? text.toList = some (tokens.map bare) :=
    bareTokens?_eq_some.mpr ⟨tokens, h, rfl⟩
  apply FirstAlike.lines (firstAlike_withoutComments left inert) left
    (bareTokens?_withoutComments left)
  intro hempty
  rw [hempty]
  rfl

namespace Interpreter

/-- Comments are never executed: a script does just what it does without them, statement by
statement, prints the same, and leaves the same state and exit code. This holds for every text that
splits into tokens, if no comment has a character that ends a line with more than blanks and
further comments behind it. -/
theorem runScript_withoutComments (s : Interpreter) (quiet : Bool) (source : String)
    {text : String} {tokens : List Token} (h : tokenize text = .ok tokens)
    (inert : ∀ comment ∈ comments text, Inert comment) :
    let lines := Text.lines text
    let others := Text.lines (withoutComments text)
    let outcome := s.runText quiet source text
    let other := s.runText quiet source (withoutComments text)
    s.scriptDeeds quiet none 1 lines = s.scriptDeeds quiet none 1 others ∧
      (s.runScript quiet lines).state = (s.runScript quiet others).state ∧
      outcome.printed = other.printed ∧ outcome.exit = other.exit := by
  intro lines others outcome other
  have halike := alikeLines_withoutComments h inert
  have hothers : others =
      (Text.splitLines (withoutCommentsFrom .code text.toList)).map String.ofList := by
    simp only [others, Text.lines, withoutComments, String.toList_ofList]
  have hruns : RunsAlike (s.scriptDeeds quiet none 1 lines)
      (s.scriptDeeds quiet none 1 others) (s.runScript quiet lines) (s.runScript quiet others) := by
    rw [hothers]
    exact linesRunAlike halike quiet s none none [] 1 1 .nothing .nothing
  exact ⟨hruns.deeds, hruns.state, hruns.outcomeFor source⟩

/-- Comments with a parenthesis, in front of a carriage return and behind a string. -/
theorem runScript_withoutComments_lines :
    let text := "f(a, # (\r\n b) # c\nend \"#\" # d"
    let s : Interpreter := {}
    let lines := Text.lines text
    let others := Text.lines (withoutComments text)
    let outcome := s.runText false "<expr>" text
    let other := s.runText false "<expr>" (withoutComments text)
    s.scriptDeeds false none 1 lines = s.scriptDeeds false none 1 others ∧
      (s.runScript false lines).state = (s.runScript false others).state ∧
      outcome.printed = other.printed ∧ outcome.exit = other.exit := by
  intro text s
  have htokens : (tokenize text).toOption.isSome = true := by decide +kernel
  obtain ⟨tokens, h⟩ := Option.isSome_iff_exists.mp htokens
  have hlines : (comments text).all (fun comment => (Text.splitLines comment).length ≤ 1) =
      true := by decide +kernel
  refine runScript_withoutComments s false "<expr>" (ok_of_toOption h) fun comment hcomment => ?_
  have hlength := List.all_eq_true.mp hlines comment hcomment
  rw [decide_eq_true_eq] at hlength
  exact inert_of_length hlength

/-- A line separator within a comment ends the line but not the comment, and what stands behind it
is executed. -/
theorem executed_within_comment :
    let text := "# note\u2028a"
    (tokenize text).toOption = some [] ∧ comments text = [text.toList] ∧
      (({} : Interpreter).runText false "<expr>" text).printed = "Start matching on: a\n" ∧
      (({} : Interpreter).runText false "<expr>" (withoutComments text)).printed = "" := by
  intro text
  refine ⟨by decide +kernel, by decide +kernel, by decide +kernel, by decide +kernel⟩

end Interpreter

end Stepwise
