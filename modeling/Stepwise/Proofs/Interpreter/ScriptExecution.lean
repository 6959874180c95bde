import Stepwise.Proofs.Interpreter.Containment
import Stepwise.Proofs.Interpreter.LineExecution
import Stepwise.Proofs.Interpreter.LineKinds
import Stepwise.Proofs.Interpreter.ScriptDeeds
import Stepwise.Proofs.Text.Lines

namespace Stepwise

/-- Behind the tokens in front of any newline a parenthesis is open. -/
def NewlinesEnclosed (text : String) : Prop :=
  ∀ tokens, tokenize text = .ok tokens → ∀ before after, text.toList = before ++ '\n' :: after →
    0 < Token.balance (tokens.filter fun t => t.position < before.length)

namespace Token

/-- Tokens stand within their text, one behind the other. -/
theorem Scanned.position {p : Nat} {cs : List Char} {ts : List Token} (h : Scanned p ts cs) :
    ∀ t ∈ ts, p ≤ t.position ∧ t.position < p + cs.length := by
  induction h with
  | nil => simp
  | dropped lexeme behind ih =>
    intro t ht
    have hposition := ih t ht
    rw [List.length_append]
    omega
  | @token p kind c ds rest ts lexeme behind ih =>
    intro t ht
    rw [List.length_append]
    rcases List.mem_cons.mp ht with rfl | ht
    · simp only [List.length_cons]
      omega
    · have hposition := ih t ht
      omega

/-- The tokens in front of a newline are those of the text in front of it. -/
theorem filter_position_of_scan {cs rest : List Char} {tokens : List Token}
    (h : scan 0 0 (cs ++ '\n' :: rest) = .ok tokens) :
    scan 0 0 cs = .ok (tokens.filter fun t => t.position < cs.length) := by
  rw [scan_append_newline] at h
  obtain ⟨ts, hts, h⟩ := ok_of_bind h
  obtain ⟨us, hus, h⟩ := ok_of_bind h
  cases h
  have hfront : ts.filter (fun t => t.position < cs.length) = ts := by
    rw [List.filter_eq_self]
    intro t ht
    have hposition := (scanned_of_scan hts).position t ht
    rw [decide_eq_true_eq]
    omega
  have hback : us.filter (fun t => t.position < cs.length) = [] := by
    rw [List.filter_eq_nil_iff]
    intro t ht
    have hposition := (scanned_of_scan hus).position t ht
    rw [decide_eq_true_eq]
    omega
  rw [List.filter_append, hfront, hback, List.append_nil, hts]

end Token

/-- The text is read as the statements, and its line breaks are newlines inside of parentheses. -/
structure Enclosed (text : String) (statements : List Statement) : Prop where
  read : readProgram text = .ok statements
  breaks : ∀ c ∈ text.toList, Text.isLineBreak c = true → c = '\n'
  newlines : NewlinesEnclosed text

namespace Enclosed

variable {text : String} {statements : List Statement} {before after line : List Char}

theorem isLine (h : Enclosed text statements) (part : ∀ c ∈ line, c ∈ text.toList)
    (single : '\n' ∉ line) : Text.IsLine line := by
  intro c hc
  rw [Bool.eq_false_iff]
  intro hbreak
  exact single (h.breaks c (part c hc) hbreak ▸ hc)

theorem open_before (h : Enclosed text statements) (split : text.toList = before ++ '\n' :: after) :
    0 < openParenthesesFrom .code before := by
  obtain ⟨tokens, htokens, -⟩ := ok_of_bind_mapError h.read
  have henclosed := h.newlines tokens htokens before after split
  rw [tokenize, split] at htokens
  rwa [openParenthesesFrom_of_scan (Token.filter_position_of_scan htokens)]

theorem closed (h : Enclosed text statements) : ¬0 < openParentheses text := by
  rw [openParentheses_of_readProgram h.read]
  exact Int.lt_irrefl 0

theorem not_command (h : Enclosed text statements) (split : text.toList = line ++ after)
    (c : Command) : Line.ofText (String.ofList line) ≠ .command c := by
  intro hkind
  obtain ⟨ts, hts⟩ := exists_bareTokens? h.read
  have hnone := bareTokens?_of_command hkind after
  rw [String.toList_ofList, ← split, hts] at hnone
  cases hnone

theorem not_last (h : Enclosed text statements) (split : text.toList = before ++ ['\n']) :
    False := by
  have hopen := h.open_before split
  have hclosed := openParentheses_of_readProgram h.read
  obtain ⟨tokens, htokens, -⟩ := ok_of_bind_mapError h.read
  rw [openParentheses_of_tokenize htokens] at hclosed
  rw [tokenize, split, Token.scan_append_newline, Token.scan] at htokens
  obtain ⟨ts, hts, htokens⟩ := ok_of_bind htokens
  cases htokens
  rw [openParenthesesFrom_of_scan hts] at hopen
  rw [List.append_nil] at hclosed
  omega

end Enclosed

/-- The outcome of a script whose statements come to the ending, if the last that is executed stands
in an input that begins on the line. -/
def Ending.outcome (line : Nat) : Ending → ScriptOutcome
  | .finished | .stopped => .finished
  | .failed error => Interpreter.failureOf line error.report

namespace Interpreter

variable {s : Interpreter} {quiet : Bool} {statements more : List Statement}

/-- A run of a script that does what the statements do: it executes just those that are executed one
after another, leaves the state and prints the messages that they leave, and ends as they do. -/
structure Runs (s : Interpreter) (quiet : Bool) (statements : List Statement) (deeds : List Deed)
    (run : ScriptRun) : Prop where
  deeds : deeds = (s.executed statements).map .statement
  state : run.state = (s.executeAll statements).state
  printed : run.printed = printedOf quiet (s.executeAll statements).messages
  outcome : ∃ line, run.outcome = (s.executeAll statements).ending.outcome line

/-- The lines run like the statements, in any state and after any number of other lines. -/
def LinesRun (quiet : Bool) (lines : List String) (statements : List Statement) : Prop :=
  ∀ (s : Interpreter) (number : Nat), Runs s quiet statements
    (s.scriptDeeds quiet none number lines) (s.runLines quiet none number lines)

theorem printedOf_append (quiet : Bool) (messages later : List Message) :
    printedOf quiet (messages ++ later) = printedOf quiet messages ++ printedOf quiet later := by
  simp [printedOf]

section Advance

variable {pending : Option OpenInput} {number : Nat} {line : String} {lines : List String}

/-- A line after which the script goes on as before. -/
theorem Runs.skip {next : Option OpenInput}
    (advance : s.advance quiet pending number line = ({ state := s }, next))
    (deeds : s.advanceDeeds pending line = [])
    (rest : Runs s quiet statements (s.scriptDeeds quiet next (number + 1) lines)
      (s.runLines quiet next (number + 1) lines)) :
    Runs s quiet statements (s.scriptDeeds quiet pending number (line :: lines))
      (s.runLines quiet pending number (line :: lines)) := by
  rw [scriptDeeds, runLines]
  simp only [advance, deeds, List.nil_append]
  exact rest

/-- A line that completes the text of some statements. The script goes on where they have come to
their end. -/
theorem Runs.complete (first : Nat) {text : String} (read : readProgram text = .ok statements)
    (advance : s.advance quiet pending number line = (s.advanceProgram quiet first text, none))
    (deeds : s.advanceDeeds pending line = s.programDeeds text)
    (rest : LinesRun quiet lines more) :
    Runs s quiet (statements ++ more) (s.scriptDeeds quiet pending number (line :: lines))
      (s.runLines quiet pending number (line :: lines)) := by
  have later := rest (s.executeAll statements).state (number + 1)
  rw [scriptDeeds, runLines]
  simp only [advance, deeds, programDeeds, advanceProgram, read]
  cases hending : (s.executeAll statements).ending with
  | finished =>
    constructor
    · rw [executed_append, hending, List.map_append]
      exact congrArg _ later.deeds
    · rw [executeAll_append, hending]
      exact later.state
    · rw [executeAll_append, hending, printedOf_append]
      exact congrArg _ later.printed
    · rw [executeAll_append, hending]
      exact later.outcome
  | stopped | failed =>
    constructor
    · rw [executed_append, hending, List.append_nil, List.append_nil]
    · rw [executeAll_append, hending]
    · rw [executeAll_append, hending]
    · rw [executeAll_append, hending]
      exact ⟨first, by rw [hending]; rfl⟩

end Advance

/-- The lines of a text. -/
def linesOf (cs : List Char) : List String := (Text.splitLines cs).map String.ofList

section Texts

variable {text : String} {after rest : List Char}

/-- Induction on the lines of the text that are left. At the end of each but the last a parenthesis
is open, and at the end of the text none is. -/
theorem Runs.of_open (h : Enclosed text statements) (ends : Text.LineEnd after rest)
    (later : LinesRun quiet (linesOf rest) more) {front back : List Char}
    (split : text.toList = front ++ '\n' :: back) (first number : Nat) :
    Runs s quiet (statements ++ more)
      (s.scriptDeeds quiet (some ⟨first, String.ofList front⟩) number (linesOf (back ++ after)))
      (s.runLines quiet (some ⟨first, String.ofList front⟩) number (linesOf (back ++ after))) := by
  induction hn : back.length using Nat.strongRecOn generalizing front back number with
  | _ n ih =>
    have hjoined (line : List Char) : String.ofList front ++ "\n" ++ String.ofList line =
        String.ofList (front ++ '\n' :: line) := by
      apply String.toList_injective
      simp
    by_cases hmem : '\n' ∈ back
    · obtain ⟨line, back', rfl, hline⟩ := List.eq_append_cons_of_mem hmem
      have hsplit : text.toList = (front ++ '\n' :: line) ++ '\n' :: back' := by simp [split]
      have hopen : 0 < openParentheses (String.ofList (front ++ '\n' :: line)) := by
        rw [openParentheses, String.toList_ofList]
        exact h.open_before hsplit
      have hlines : linesOf (line ++ '\n' :: back' ++ after) =
          String.ofList line :: linesOf (back' ++ after) := by
        rw [linesOf, List.append_assoc, List.cons_append, Text.splitLines_newline
          (h.isLine (fun c hc => by simp [split, hc]) hline), List.map_cons, linesOf]
      rw [hlines]
      refine Runs.skip ?_ ?_ (ih back'.length ?_ hsplit (number + 1) rfl)
      · simp only [advance, hjoined, hopen, if_true]
      · simp only [advanceDeeds, hjoined, inputDeeds, hopen, if_true]
      · rw [← hn, List.length_append, List.length_cons]
        omega
    · have htext : String.ofList (front ++ '\n' :: back) = text := by
        rw [← split, String.ofList_toList]
      have hclosed := h.closed
      rcases Text.splitLines_lineEnd (h.isLine (fun c hc => by simp [split, hc]) hmem) ends with
        hlines | ⟨rfl, -, -⟩
      · rw [linesOf, hlines, List.map_cons]
        refine Runs.complete first h.read ?_ ?_ later
        · simp only [advance, hjoined, htext, hclosed, if_false]
        · simp only [advanceDeeds, hjoined, htext, inputDeeds, hclosed, if_false]
      · exact absurd split h.not_last

/-- A text of several lines in front of others. -/
theorem LinesRun.several (h : Enclosed text statements) (ends : Text.LineEnd after rest)
    (later : LinesRun quiet (linesOf rest) more) (newline : '\n' ∈ text.toList) :
    LinesRun quiet (linesOf (text.toList ++ after)) (statements ++ more) := by
  intro s number
  obtain ⟨line, back, split, hline⟩ := List.eq_append_cons_of_mem newline
  have hopen : 0 < openParentheses (String.ofList line) := by
    rw [openParentheses, String.toList_ofList]
    exact h.open_before split
  have hlines : linesOf (text.toList ++ after) = String.ofList line :: linesOf (back ++ after) := by
    rw [linesOf, split, List.append_assoc, List.cons_append, Text.splitLines_newline
      (h.isLine (fun c hc => by simp [split, hc]) hline), List.map_cons, linesOf]
  have hopened := Runs.of_open (s := s) h ends later split number (number + 1)
  rw [hlines]
  cases hkind : Line.ofText (String.ofList line) with
  | blank =>
    rw [openParentheses_of_blank hkind (by simpa using hline)] at hopen
    exact absurd hopen (Int.lt_irrefl 0)
  | command c => exact absurd hkind (h.not_command split c)
  | program _ =>
    refine Runs.skip ?_ ?_ hopened
    · simp only [advance, hkind, hopen, if_true]
    · simp only [advanceDeeds, hkind, inputDeeds, hopen, if_true]

/-- A text of one line, or of none, in front of others. -/
theorem LinesRun.single (h : Enclosed text statements) (ends : Text.LineEnd after rest)
    (later : LinesRun quiet (linesOf rest) more) (newline : '\n' ∉ text.toList) :
    LinesRun quiet (linesOf (text.toList ++ after)) (statements ++ more) := by
  intro s number
  have hclosed := h.closed
  rcases Text.splitLines_lineEnd (h.isLine (fun c hc => hc) newline) ends with
    hlines | ⟨hempty, rfl, rfl⟩
  · rw [linesOf, hlines, List.map_cons, String.ofList_toList]
    cases hkind : Line.ofText text with
    | blank =>
      have hnone : statements = [] := by
        have hread := readProgram_of_blank hkind newline
        rw [h.read, Except.ok.injEq] at hread
        exact hread
      subst hnone
      refine Runs.skip ?_ ?_ (later s (number + 1))
      · simp only [advance, hkind]
      · simp only [advanceDeeds, hkind]
    | command c =>
      rw [← String.ofList_toList (s := text)] at hkind
      exact absurd hkind (h.not_command (List.append_nil _).symm c)
    | program _ =>
      refine Runs.complete number h.read ?_ ?_ later
      · simp only [advance, hkind, hclosed, if_false]
      · simp only [advanceDeeds, hkind, inputDeeds, hclosed, if_false]
  · -- a text without a character has no line
    have hnone : statements = [] := by
      have hread := h.read
      rw [← String.ofList_toList (s := text), hempty] at hread
      cases hread
      rfl
    rw [hempty, hnone]
    exact later s number

theorem LinesRun.cons (h : Enclosed text statements) (ends : Text.LineEnd after rest)
    (later : LinesRun quiet (linesOf rest) more) :
    LinesRun quiet (linesOf (text.toList ++ after)) (statements ++ more) := by
  by_cases newline : '\n' ∈ text.toList
  · exact .several h ends later newline
  · exact .single h ends later newline

end Texts

theorem LinesRun.nil : LinesRun quiet (linesOf []) [] := fun _ number =>
  { deeds := rfl, state := rfl, printed := rfl, outcome := ⟨number, rfl⟩ }

/-- Texts joined by newlines run like their statements. -/
theorem linesRun_of_enclosed {texts : List String} {programs : List (List Statement)}
    (h : List.Forall₂ Enclosed texts programs) :
    LinesRun quiet (Text.lines ("\n".intercalate texts)) programs.flatten := by
  have hlines (texts : List String) : Text.lines ("\n".intercalate texts) =
      linesOf (List.intercalate ['\n'] (texts.map String.toList)) := by
    rw [Text.lines, linesOf, String.toList_intercalate]
    rfl
  rw [hlines]
  induction h with
  | nil => exact .nil
  | @cons text statements texts programs first rest ih =>
    cases rest with
    | nil =>
      have hend : LinesRun quiet (linesOf []) [] := .nil
      simpa using LinesRun.cons first .text hend
    | cons second rest =>
      simpa [List.intercalate_cons_cons] using LinesRun.cons first (.newline _) ih

/-- The exit of a script whose statements come to the ending. What no message reports is a null
character in a path that a derivation is written to. -/
inductive Exits (s : Interpreter) (statements : List Statement) : Ending → Exit → Prop
  | finished : Exits s statements .finished (.code 0)
  | stopped : Exits s statements .stopped (.code 0)
  | failed {error : ExecutionError} {message : String} (report : error.report = .ok message) :
      Exits s statements (.failed error) (.code 1)
  | unreported {error : ExecutionError} {path : String} (mem : .finish (some path) ∈ statements)
      (null : (s.outputPath path).HasNull) :
      Exits s statements (.failed error) (.fatal .nullCharacter)

theorem Runs.exits {deeds : List Deed} {run : ScriptRun} (h : Runs s quiet statements deeds run)
    (source : String) :
    Exits s statements (s.executeAll statements).ending (run.outcomeFor source).exit := by
  obtain ⟨line, houtcome⟩ := h.outcome
  rw [ScriptRun.outcomeFor, houtcome]
  cases hending : (s.executeAll statements).ending with
  | finished => exact .finished
  | stopped => exact .stopped
  | failed error =>
    cases hreport : error.report with
    | ok message =>
      simp only [Ending.outcome, hreport, failureOf]
      exact .failed hreport
    | error fatal =>
      obtain ⟨rfl, path, hmem, hnull⟩ := hasNull_of_executeAll hending hreport
      simp only [Ending.outcome, hreport, failureOf]
      exact .unreported hmem hnull

/-- A script of texts that are read executes their statements in order and no others: up to the
first that fails, with exit code 1, or that stops the interpreter, or else all of them, with exit
code 0. Only a null character in a path keeps it from an exit code, as texts are rows of Unicode
scalar values, with no surrogate that stands alone. -/
theorem runScript_of_enclosed (s : Interpreter) (quiet : Bool) (source : String)
    {texts : List String} {programs : List (List Statement)}
    (h : List.Forall₂ Enclosed texts programs) :
    let lines := Text.lines ("\n".intercalate texts)
    let run := s.runScript quiet lines
    Runs s quiet programs.flatten (s.scriptDeeds quiet none 1 lines) run ∧
      Exits s programs.flatten (s.executeAll programs.flatten).ending
        (run.outcomeFor source).exit := by
  have hlines : LinesRun quiet _ _ := linesRun_of_enclosed h
  have hrun := hlines s 1
  exact ⟨hrun, hrun.exits source⟩

end Interpreter

theorem enclosed_of_tokens {text : String} (tokens : List Token) {statements : List Statement}
    (h : (tokenize text).toOption = some tokens)
    (read : readStatements text.length 0 tokens = .ok statements)
    (breaks : text.toList.all (fun c => !Text.isLineBreak c || c == '\n') = true)
    (newlines : (List.range text.toList.length).all (fun n => text.toList[n]? != some '\n' ||
      decide (0 < Token.balance (tokens.filter fun t => t.position < n))) = true) :
    Enclosed text statements where
  read := readProgram_of_tokens h read
  breaks c hc hbreak := by simpa [hbreak] using List.all_eq_true.mp breaks c hc
  newlines := by
    intro tokens' htokens before after split
    rw [ok_of_toOption h] at htokens
    cases htokens
    have hmem : before.length ∈ List.range text.toList.length := by simp [split]
    simpa [split] using List.all_eq_true.mp newlines before.length hmem

namespace Interpreter

/-- A comment with a parenthesis and a blank line stand within the first text. -/
theorem runScript_of_enclosed_lines :
    let texts := ["f(# (\n\na)", "undo; quit"]
    let programs : List (List Statement) := [[.start (.app "f" [.var "a"])], [.undo, .quit]]
    let lines := Text.lines ("\n".intercalate texts)
    let run := ({} : Interpreter).runScript false lines
    List.Forall₂ Enclosed texts programs ∧
      Runs {} false programs.flatten (({} : Interpreter).scriptDeeds false none 1 lines) run ∧
      Exits {} programs.flatten (({} : Interpreter).executeAll programs.flatten).ending
        (run.outcomeFor "<expr>").exit := by
  intro texts programs lines run
  have hfirst : Enclosed "f(# (\n\na)" [.start (.app "f" [.var "a"])] :=
    enclosed_of_tokens [⟨.name, "f", 0⟩, ⟨.opening, "(", 1⟩, ⟨.name, "a", 7⟩,
      ⟨.closing, ")", 8⟩] (by decide +kernel) rfl (by decide +kernel) (by decide +kernel)
  have hsecond : Enclosed "undo; quit" [.undo, .quit] :=
    enclosed_of_tokens [⟨.keyword .undo, "undo", 0⟩, ⟨.semicolon, ";", 4⟩,
      ⟨.keyword .quit, "quit", 6⟩] (by decide +kernel) rfl (by decide +kernel) (by decide +kernel)
  have h : List.Forall₂ Enclosed texts programs := .cons hfirst (.cons hsecond .nil)
  exact ⟨h, runScript_of_enclosed {} false "<expr>" h⟩

/-- The end of a session fails for a null character in its path, and no exit code tells of it. -/
theorem exit_of_null :
    (({} : Interpreter).runText false "<expr>" "a\nend \"x\x00y\"").exit =
      .fatal .nullCharacter := by
  have hstart : Enclosed "a" [.start (.var "a")] :=
    enclosed_of_tokens [⟨.name, "a", 0⟩] (by decide +kernel) rfl (by decide +kernel)
      (by decide +kernel)
  have hfinish : Enclosed "end \"x\x00y\"" [.finish (some "x\x00y")] :=
    enclosed_of_tokens [⟨.keyword .finish, "end", 0⟩, ⟨.string, "\"x\x00y\"", 4⟩]
      (by decide +kernel) rfl (by decide +kernel) (by decide +kernel)
  have h : List.Forall₂ Enclosed ["a", "end \"x\x00y\""]
      [[.start (.var "a")], [.finish (some "x\x00y")]] := .cons hstart (.cons hfinish .nil)
  have hlines : LinesRun false _ _ := linesRun_of_enclosed h
  have htext : "\n".intercalate ["a", "end \"x\x00y\""] = "a\nend \"x\x00y\"" := by
    decide +kernel
  obtain ⟨line, houtcome⟩ := (hlines {} 1).outcome
  rw [htext] at houtcome
  rw [runText, runScript, ScriptRun.outcomeFor, houtcome]
  rfl

end Interpreter

end Stepwise
