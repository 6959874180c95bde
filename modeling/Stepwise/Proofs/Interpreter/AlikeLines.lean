import Stepwise.CommandLine.Program
import Stepwise.Proofs.Interpreter.Containment
import Stepwise.Proofs.Interpreter.LineKinds
import Stepwise.Proofs.Interpreter.ScriptDeeds

namespace Stepwise

open Token

/-- The tokens of a single line. -/
structure Splits (line : List Char) (ts : List Token) : Prop where
  tokens : bareTokens? line = some ts
  single : '\n' ∉ line

/-- A line that is for statements, but cannot be split into tokens. -/
structure Torn (line : List Char) : Prop where
  tokens : bareTokens? line = none
  program : ∃ text, Line.ofText (String.ofList line) = .program text

/-- Lines with the same tokens up to the first that cannot be split, and further lines without
any. -/
inductive AlikeLines : List (List Char) → List (List Char) → Prop
  | nil : AlikeLines [] []
  | extra {line : List Char} {lines others : List (List Char)} (empty : Splits line [])
      (rest : AlikeLines lines others) : AlikeLines (line :: lines) others
  | same {line other : List Char} {lines others : List (List Char)} {ts : List Token}
      (left : Splits line ts) (right : Splits other ts) (rest : AlikeLines lines others) :
      AlikeLines (line :: lines) (other :: others)
  | torn {line other : List Char} {lines others : List (List Char)} (left : Torn line)
      (right : Torn other) : AlikeLines (line :: lines) (other :: others)

/-- Outcomes that differ in nothing but the complaint about a failure. -/
inductive ScriptOutcome.Alike : ScriptOutcome → ScriptOutcome → Prop
  | finished : Alike .finished .finished
  | failed (line line' : Nat) (message message' : String) :
      Alike (.failed line message) (.failed line' message')
  | fatal (error : Fatal) : Alike (.fatal error) (.fatal error)

namespace Interpreter

/-- Runs that do the same and leave the same, and print the same apart from a complaint. -/
structure RunsAlike (deeds deeds' : List Deed) (run run' : ScriptRun) : Prop where
  deeds : deeds = deeds'
  state : run.state = run'.state
  printed : run.printed = run'.printed
  outcome : run.outcome.Alike run'.outcome

theorem RunsAlike.outcomeFor {deeds deeds' : List Deed} {run run' : ScriptRun}
    (h : RunsAlike deeds deeds' run run') (source : String) :
    (run.outcomeFor source).printed = (run'.outcomeFor source).printed ∧
      (run.outcomeFor source).exit = (run'.outcomeFor source).exit := by
  obtain ⟨-, hstate, hprinted, houtcome⟩ := h
  unfold ScriptRun.outcomeFor
  rw [hprinted]
  generalize run.outcome = outcome, run'.outcome = outcome' at houtcome
  cases houtcome with
  | finished => exact ⟨rfl, rfl⟩
  | failed => exact ⟨rfl, rfl⟩
  | fatal error => exact ⟨rfl, rfl⟩

variable {s : Interpreter} {quiet : Bool} {pending : Option OpenInput} {number : Nat}
  {ts us : List Token} {line : List Char}

section Complete

variable {text text' : String}

theorem failureOf_alike (line line' : Nat) (report : Except Fatal String) :
    (failureOf line report).Alike (failureOf line' report) := by
  cases report with
  | ok message => exact .failed line line' _ _
  | error fatal => exact .fatal fatal

/-- Inputs that are over in the same way. -/
structure AdvancesAlike (step step' : Advance) : Prop where
  state : step.state = step'.state
  printed : step.printed = step'.printed
  result : Option.Rel ScriptOutcome.Alike step.result step'.result

theorem advanceProgram_alike (s : Interpreter) (quiet : Bool) (first first' : Nat)
    (h : bareTokens? text.toList = bareTokens? text'.toList) :
    s.programDeeds text = s.programDeeds text' ∧
      AdvancesAlike (s.advanceProgram quiet first text) (s.advanceProgram quiet first' text') := by
  have hread := readProgram_agrees h
  unfold programDeeds advanceProgram
  generalize readProgram text = program, readProgram text' = program' at hread ⊢
  cases hread with
  | malformed e e' => exact ⟨rfl, rfl, rfl, .some (.failed first first' _ _)⟩
  | unbound e => exact ⟨rfl, rfl, rfl, .some (failureOf_alike first first' _)⟩
  | overflow => exact ⟨rfl, rfl, rfl, .some (failureOf_alike first first' _)⟩
  | @ok statements _ same =>
    subst same
    refine ⟨rfl, rfl, rfl, ?_⟩
    dsimp only
    cases (s.executeAll statements).ending with
    | finished => exact .none
    | stopped => exact .some .finished
    | failed error => exact .some (failureOf_alike first first' _)

/-- A text without tokens does nothing. -/
theorem advanceProgram_of_empty (s : Interpreter) (quiet : Bool) (first : Nat)
    (h : bareTokens? text.toList = some []) :
    s.programDeeds text = [] ∧ s.advanceProgram quiet first text = { state := s } := by
  have hempty : bareTokens? text.toList = bareTokens? "".toList := by
    rw [h]
    exact bareTokens?_nil.symm
  have hread : readProgram text = .ok [] :=
    ((readProgram_agrees hempty).ok_iff []).mpr rfl
  unfold programDeeds advanceProgram
  rw [hread]
  exact ⟨rfl, rfl⟩

end Complete

/-- The input that is open has the tokens, if there is one. -/
inductive Holds : Option OpenInput → List Token → Prop
  | nothing : Holds none []
  | input {input : OpenInput} {ts : List Token} (tokens : bareTokens? input.text.toList = some ts)
      (goes : 0 < balance ts) : Holds (some input) ts

theorem bareTokens?_joined (h : Holds pending us) (line : List Char) :
    bareTokens? (joined pending (String.ofList line)).toList =
      (bareTokens? line).map (us ++ ·) := by
  cases h with
  | nothing =>
    rw [joined, String.toList_ofList]
    cases bareTokens? line <;> rfl
  | input tokens goes =>
    have htext (text : String) : (text ++ "\n" ++ String.ofList line).toList =
        text.toList ++ '\n' :: line := by simp [String.toList_append]
    rw [joined, htext, bareTokens?_append_newline, tokens]
    cases bareTokens? line <;> rfl

/-- What becomes of the tokens that are open with those of a line: they stay open, or the statements
that they make are executed. -/
inductive Turn (s : Interpreter) (quiet : Bool) (ts : List Token) :
    Advance × Option OpenInput → List Deed → Prop
  | held {input : OpenInput} (tokens : bareTokens? input.text.toList = some ts)
      (goes : 0 < balance ts) : Turn s quiet ts ({ state := s }, some input) []
  | complete {first : Nat} {text : String} (tokens : bareTokens? text.toList = some ts)
      (closed : ¬0 < balance ts) :
      Turn s quiet ts (s.advanceProgram quiet first text, none) (s.programDeeds text)

theorem turn (s : Interpreter) (quiet : Bool) (number : Nat) (holds : Holds pending us)
    (splits : Splits line ts) :
    s.Turn quiet (us ++ ts) (s.advance quiet pending number (String.ofList line))
      (s.advanceDeeds pending (String.ofList line)) := by
  have htokens := bareTokens?_joined holds line
  rw [splits.tokens, Option.map_some] at htokens
  have htakes := s.takes quiet pending number (String.ofList line)
  generalize s.advance quiet pending number (String.ofList line) = advanced,
    s.advanceDeeds pending (String.ofList line) = deeds at htakes ⊢
  cases htakes with
  | blank free kind =>
    subst free
    have hsingle : '\n' ∉ (String.ofList line).toList := by
      rw [String.toList_ofList]
      exact splits.single
    have hempty := bareTokens?_of_blank_line kind hsingle
    obtain ⟨hdeeds, hadvance⟩ := advanceProgram_of_empty s quiet number hempty
    rw [joined, hempty, Option.some.injEq] at htokens
    rw [← htokens, ← hdeeds, ← hadvance]
    exact .complete hempty (by decide)
  | command free kind =>
    subst free
    have hnone := bareTokens?_of_command kind []
    rw [List.append_nil, String.toList_ofList, splits.tokens] at hnone
    cases hnone
  | opened text kind goes =>
    rw [openParentheses_of_bareTokens? htokens] at goes
    exact .held (by rw [text, htokens]) goes
  | complete kind closed =>
    rw [openParentheses_of_bareTokens? htokens] at closed
    exact .complete htokens closed

section Failing

variable {lines : List String}

/-- A run that does nothing and fails. -/
structure Fails (s : Interpreter) (deeds : List Deed) (run : ScriptRun) : Prop where
  deeds : deeds = []
  state : run.state = s
  printed : run.printed = []
  outcome : ∃ line message, run.outcome = .failed line message

theorem Fails.alike {deeds deeds' : List Deed} {run run' : ScriptRun} (h : Fails s deeds run)
    (h' : Fails s deeds' run') : RunsAlike deeds deeds' run run' := by
  obtain ⟨line, message, houtcome⟩ := h.outcome
  obtain ⟨line', message', houtcome'⟩ := h'.outcome
  constructor
  · rw [h.deeds, h'.deeds]
  · rw [h.state, h'.state]
  · rw [h.printed, h'.printed]
  · rw [houtcome, houtcome']
    exact .failed line line' message message'

/-- An input that cannot be split into tokens is not executed, and neither is what makes it
longer. -/
theorem fails_of_torn {line : String} (torn : bareTokens? (joined pending line).toList = none)
    (kind : pending.isSome = true ∨ ∃ text, Line.ofText line = .program text)
    (later : ∀ (input : OpenInput) (number : Nat), bareTokens? input.text.toList = none →
      Fails s (s.scriptDeeds quiet (some input) number lines)
        (s.runLines quiet (some input) number lines)) :
    Fails s (s.scriptDeeds quiet pending number (line :: lines))
      (s.runLines quiet pending number (line :: lines)) := by
  rw [scriptDeeds, runLines]
  have htakes := s.takes quiet pending number line
  generalize s.advance quiet pending number line = advanced, s.advanceDeeds pending line = deeds
    at htakes ⊢
  cases htakes with
  | blank free kind' =>
    subst free
    rcases kind with hsome | ⟨text, htext⟩
    · cases hsome
    · rw [kind'] at htext
      cases htext
  | command free kind' =>
    subst free
    rcases kind with hsome | ⟨text, htext⟩
    · cases hsome
    · rw [kind'] at htext
      cases htext
  | opened text kind' goes => exact later _ _ (by rw [text, torn])
  | complete kind' closed =>
    obtain ⟨e, he⟩ := readProgram_of_bareTokens?_none torn
    simp only [programDeeds, advanceProgram, he]
    exact ⟨rfl, rfl, rfl, _, _, rfl⟩

theorem fails_of_torn_input (input : OpenInput) (number : Nat)
    (torn : bareTokens? input.text.toList = none) :
    Fails s (s.scriptDeeds quiet (some input) number lines)
      (s.runLines quiet (some input) number lines) := by
  induction lines generalizing input number with
  | nil => exact ⟨rfl, rfl, rfl, _, _, rfl⟩
  | cons line lines ih =>
    apply fails_of_torn
    · have htext : (joined (some input) line).toList =
          input.text.toList ++ '\n' :: line.toList := by simp [joined, String.toList_append]
      rw [htext, bareTokens?_append_newline, torn]
      rfl
    · exact Or.inl rfl
    · exact ih

end Failing

theorem RunsAlike.cons {deeds deeds' later later' : List Deed} {printed printed' : List String}
    {run run' : ScriptRun} (now : deeds = deeds') (said : printed = printed')
    (rest : RunsAlike later later' run run') :
    RunsAlike (deeds ++ later) (deeds' ++ later') { run with printed := printed ++ run.printed }
      { run' with printed := printed' ++ run'.printed } := by
  constructor
  · rw [now, rest.deeds]
  · exact rest.state
  · rw [said, rest.printed]
  · exact rest.outcome

/-- The lines are executed alike in every state, where inputs with the same tokens are open. -/
def LinesRunAlike (quiet : Bool) (lines others : List (List Char)) : Prop :=
  ∀ (s : Interpreter) (pending pending' : Option OpenInput) (us : List Token)
    (number number' : Nat), Holds pending us → Holds pending' us →
      RunsAlike (s.scriptDeeds quiet pending number (lines.map String.ofList))
        (s.scriptDeeds quiet pending' number' (others.map String.ofList))
        (s.runLines quiet pending number (lines.map String.ofList))
        (s.runLines quiet pending' number' (others.map String.ofList))

namespace LinesRunAlike

variable {other : List Char} {lines others : List (List Char)}

theorem nil : LinesRunAlike quiet [] [] := by
  intro s pending pending' us number number' holds holds'
  cases holds with
  | nothing =>
    cases holds' with
    | nothing => exact ⟨rfl, rfl, rfl, .finished⟩
    | input tokens' goes' => exact absurd goes' (by decide)
  | input tokens goes =>
    cases holds' with
    | nothing => exact absurd goes (by decide)
    | input tokens' goes' => exact ⟨rfl, rfl, rfl, .failed _ _ _ _⟩

theorem torn (left : Torn line) (right : Torn other) :
    LinesRunAlike quiet (line :: lines) (other :: others) := by
  intro s pending pending' us number number' holds holds'
  apply Fails.alike (s := s)
  · apply fails_of_torn
    · rw [bareTokens?_joined holds, left.tokens]
      rfl
    · exact Or.inr left.program
    · exact fails_of_torn_input
  · apply fails_of_torn
    · rw [bareTokens?_joined holds', right.tokens]
      rfl
    · exact Or.inr right.program
    · exact fails_of_torn_input

theorem extra (empty : Splits line []) (rest : LinesRunAlike quiet lines others) :
    LinesRunAlike quiet (line :: lines) others := by
  intro s pending pending' us number number' holds holds'
  have hturn := s.turn quiet number holds empty
  rw [List.append_nil] at hturn
  rw [List.map_cons, scriptDeeds, runLines]
  generalize s.advance quiet pending number (String.ofList line) = advanced,
    s.advanceDeeds pending (String.ofList line) = deeds at hturn ⊢
  cases hturn with
  | held tokens goes => exact rest _ _ _ _ _ _ (.input tokens goes) holds'
  | @complete first text tokens closed =>
    cases holds with
    | input tokens' goes => exact absurd goes closed
    | nothing =>
      obtain ⟨hdeeds, hadvance⟩ := advanceProgram_of_empty s quiet first tokens
      rw [hdeeds, hadvance]
      exact rest _ _ _ _ _ _ .nothing holds'

theorem same (left : Splits line ts) (right : Splits other ts)
    (rest : LinesRunAlike quiet lines others) :
    LinesRunAlike quiet (line :: lines) (other :: others) := by
  intro s pending pending' us number number' holds holds'
  have hturn := s.turn quiet number holds left
  have hturn' := s.turn quiet number' holds' right
  rw [List.map_cons, List.map_cons, scriptDeeds, scriptDeeds, runLines, runLines]
  generalize s.advance quiet pending number (String.ofList line) = advanced,
    s.advanceDeeds pending (String.ofList line) = deeds at hturn ⊢
  generalize s.advance quiet pending' number' (String.ofList other) = advanced',
    s.advanceDeeds pending' (String.ofList other) = deeds' at hturn' ⊢
  cases hturn with
  | held tokens goes =>
    cases hturn' with
    | held tokens' => exact rest _ _ _ _ _ _ (.input tokens goes) (.input tokens' goes)
    | complete tokens' closed => exact absurd goes closed
  | @complete first text tokens closed =>
    cases hturn' with
    | held tokens' goes => exact absurd goes closed
    | @complete first' text' tokens' =>
      obtain ⟨hdeeds, hstate, hprinted, hresult⟩ :=
        advanceProgram_alike s quiet first first' (tokens.trans tokens'.symm)
      dsimp only
      generalize s.advanceProgram quiet first text = step,
        s.advanceProgram quiet first' text' = step' at hstate hprinted hresult ⊢
      obtain ⟨state, printed, result⟩ := step
      obtain ⟨state', printed', result'⟩ := step'
      dsimp only at hstate hprinted hresult ⊢
      subst hstate
      cases hresult with
      | none => exact .cons hdeeds hprinted (rest _ _ _ _ _ _ .nothing .nothing)
      | some outcome => exact ⟨by rw [hdeeds], rfl, hprinted, outcome⟩

end LinesRunAlike

theorem linesRunAlike {lines others : List (List Char)} (h : AlikeLines lines others)
    (quiet : Bool) : LinesRunAlike quiet lines others := by
  induction h with
  | nil => exact .nil
  | extra empty rest ih => exact .extra empty ih
  | same left right rest ih => exact .same left right ih
  | torn left right => exact .torn left right

end Interpreter

end Stepwise
