import Stepwise.Interpreter.Script
import Stepwise.Proofs.Interpreter.Deeds

namespace Stepwise

namespace Interpreter

variable {s : Interpreter} {quiet : Bool}

/-- The statements that are executed: all of them, or those up to the first that fails or leaves
the interpreter stopped. -/
def executed (s : Interpreter) : List Statement → List Statement
  | [] => []
  | statement :: statements => match s.execute statement with
    | .error _ => [statement]
    | .ok (after, _) => statement :: if after.running then after.executed statements else []

/-- What is done for a text of statements. Nothing is, unless all of them can be read. -/
def programDeeds (s : Interpreter) (text : String) : List Deed :=
  match readProgram text with
  | .error _ => []
  | .ok statements => (s.executed statements).map .statement

/-- What a script does for an input, once it is complete. -/
def inputDeeds (s : Interpreter) (text : String) : List Deed :=
  if 0 < openParentheses text then [] else s.programDeeds text

/-- What a script does at a line. -/
def advanceDeeds (s : Interpreter) (pending : Option OpenInput) (line : String) : List Deed :=
  match pending with
  | some input => s.inputDeeds (input.text ++ "\n" ++ line)
  | none => match Line.ofText line with
    | .blank => []
    | .command c => [.command c]
    | .program _ => s.inputDeeds line

/-- What a script does at one line after another, until it is over. -/
def scriptDeeds (s : Interpreter) (quiet : Bool) (pending : Option OpenInput) (number : Nat) :
    List String → List Deed
  | [] => []
  | line :: lines =>
    let (step, next) := s.advance quiet pending number line
    s.advanceDeeds pending line ++ match step.result with
      | some _ => []
      | none => step.state.scriptDeeds quiet next (number + 1) lines

/-- What taking in a line can come to, and what is done for it: nothing for a blank or a comment,
a command, or a text that goes on or is complete. -/
inductive Takes (s : Interpreter) (quiet : Bool) (pending : Option OpenInput) (number : Nat)
    (line : String) : Advance × Option OpenInput → List Deed → Prop
  | blank (free : pending = none) (kind : Line.ofText line = .blank) :
      Takes s quiet pending number line ({ state := s }, none) []
  | command {c : Command} (free : pending = none) (kind : Line.ofText line = .command c) :
      Takes s quiet pending number line (s.advanceCommand number c, none) [.command c]
  | opened {input : OpenInput} (text : input.text = joined pending line)
      (kind : pending.isSome = true ∨ ∃ text, Line.ofText line = .program text)
      (goes : 0 < openParentheses (joined pending line)) :
      Takes s quiet pending number line ({ state := s }, some input) []
  | complete {first : Nat} (kind : pending.isSome = true ∨ ∃ text, Line.ofText line = .program text)
      (closed : ¬0 < openParentheses (joined pending line)) :
      Takes s quiet pending number line (s.advanceProgram quiet first (joined pending line), none)
        (s.programDeeds (joined pending line))

theorem takes (s : Interpreter) (quiet : Bool) (pending : Option OpenInput) (number : Nat)
    (line : String) : s.Takes quiet pending number line (s.advance quiet pending number line)
      (s.advanceDeeds pending line) := by
  unfold advance advanceDeeds inputDeeds
  cases pending with
  | some input =>
    dsimp only
    split
    · exact .opened rfl (Or.inl rfl) ‹_›
    · exact .complete (Or.inl rfl) ‹_›
  | none =>
    dsimp only
    cases hkind : Line.ofText line with
    | blank => exact .blank rfl hkind
    | command c => exact .command rfl hkind
    | program text =>
      dsimp only
      split
      · exact .opened rfl (Or.inr ⟨text, hkind⟩) ‹_›
      · exact .complete (Or.inr ⟨text, hkind⟩) ‹_›

end Interpreter

namespace Executing

/-- The fields after some deeds. -/
def afterDeeds (o : Fields) (deeds : List Deed) : Fields :=
  deeds.foldl (fun o d => (event d o).after) o

theorem afterDeeds_append {o : Fields} {deeds later : List Deed} :
    afterDeeds o (deeds ++ later) = afterDeeds (afterDeeds o deeds) later := List.foldl_append

/-- The events of deeds that are done one after another. -/
def deedEvents (o : Fields) : List Deed → List Event
  | [] => []
  | d :: deeds => event d o :: deedEvents (event d o).after deeds

theorem deedEvents_append {o : Fields} {deeds later : List Deed} :
    deedEvents o (deeds ++ later) = deedEvents o deeds ++ deedEvents (afterDeeds o deeds) later := by
  induction deeds generalizing o with
  | nil => rfl
  | cons d deeds ih =>
    rw [List.cons_append, deedEvents, deedEvents, ih]
    rfl

theorem afterDeeds_eq_afterEvents (o : Fields) (deeds : List Deed) :
    afterDeeds o deeds = afterEvents o (deedEvents o deeds) := by
  induction deeds generalizing o with
  | nil => rfl
  | cons d deeds ih => exact ih (event d o).after

variable {s s' : Interpreter} {deeds : List Deed}

theorem afterDeeds_of_trace (h : s.Trace (deedEvents s.fields deeds) s') :
    afterDeeds s.fields deeds = s'.fields := by
  rw [afterDeeds_eq_afterEvents, h.afterEvents_eq]

theorem trace_command (c : Command) : s.Trace (deedEvents s.fields [.command c])
    (match s.command c with
      | .ok (after, _) => after
      | .error _ => s) :=
  .next (leads_command c) (.done _)

/-- The statements that are executed lead to the state after them. -/
theorem trace_executed {statements : List Statement}
    (readable : ∀ statement ∈ statements, statement.IsReadable) :
    s.Trace (deedEvents s.fields ((s.executed statements).map .statement))
      (s.executeAll statements).state := by
  induction statements generalizing s with
  | nil => exact .done _
  | cons statement statements ih =>
    rw [List.forall_mem_cons] at readable
    have hleads := leads_statement (s := s) readable.1
    rw [Interpreter.executed, Interpreter.executeAll]
    cases h : s.execute statement with
    | error e =>
      simp only [h] at hleads
      exact .next hleads (.done _)
    | ok result =>
      obtain ⟨after, said⟩ := result
      simp only [h] at hleads
      dsimp only
      rw [List.map_cons, deedEvents, hleads.after_eq]
      cases after.running with
      | false => exact .next hleads (.done _)
      | true => exact .next hleads (ih readable.2)

theorem trace_program (text : String) (quiet : Bool) (line : Nat) :
    s.Trace (deedEvents s.fields (s.programDeeds text))
      (s.advanceProgram quiet line text).state := by
  unfold Interpreter.programDeeds Interpreter.advanceProgram
  cases h : readProgram text with
  | error e => exact .done _
  | ok statements => exact trace_executed (isReadable_of_readProgram h)

theorem trace_advance (quiet : Bool) (pending : Option OpenInput) (number : Nat) (line : String) :
    s.Trace (deedEvents s.fields (s.advanceDeeds pending line))
      (s.advance quiet pending number line).1.state := by
  have htakes := s.takes quiet pending number line
  generalize s.advance quiet pending number line = advanced, s.advanceDeeds pending line = deeds
    at htakes ⊢
  cases htakes with
  | blank | opened => exact .done _
  | complete => exact trace_program _ quiet _
  | @command c =>
    have hcommand := trace_command (s := s) c
    unfold Interpreter.advanceCommand
    cases h : s.command c with
    | error fatal =>
      simp only [h] at hcommand
      exact hcommand
    | ok result =>
      simp only [h] at hcommand
      dsimp only
      split <;> exact hcommand

/-- What a script does leads to the state that it leaves. -/
theorem trace_script (quiet : Bool) (pending : Option OpenInput) (number : Nat)
    (lines : List String) :
    s.Trace (deedEvents s.fields (s.scriptDeeds quiet pending number lines))
      (s.runLines quiet pending number lines).state := by
  induction lines generalizing s pending number with
  | nil => exact .done _
  | cons line lines ih =>
    have hadvance := trace_advance (s := s) quiet pending number line
    rw [Interpreter.scriptDeeds, Interpreter.runLines]
    dsimp only
    rw [deedEvents_append, afterDeeds_of_trace hadvance]
    cases (s.advance quiet pending number line).1.result with
    | some outcome =>
      simp only [deedEvents, List.append_nil]
      exact hadvance
    | none => exact hadvance.append (ih ..)

/-- What a script does makes all of the state that it leaves. -/
theorem afterDeeds_script (quiet : Bool) (pending : Option OpenInput) (number : Nat)
    (lines : List String) : afterDeeds s.fields (s.scriptDeeds quiet pending number lines) =
      (s.runLines quiet pending number lines).state.fields :=
  afterDeeds_of_trace (trace_script quiet pending number lines)

end Executing

namespace Interpreter

variable {s : Interpreter}

/-- Statements behind others are executed where the others have come to their end. -/
theorem executeAll_append {statements more : List Statement} :
    s.executeAll (statements ++ more) = match (s.executeAll statements).ending with
      | .finished =>
        { (s.executeAll statements).state.executeAll more with
          messages := (s.executeAll statements).messages ++
            ((s.executeAll statements).state.executeAll more).messages }
      | _ => s.executeAll statements := by
  induction statements generalizing s with
  | nil => rfl
  | cons statement statements ih =>
    rw [List.cons_append, executeAll, executeAll]
    cases s.execute statement with
    | error e => rfl
    | ok result =>
      obtain ⟨after, said⟩ := result
      dsimp only
      cases after.running with
      | false => rfl
      | true =>
        simp only [if_true, ih]
        cases hending : (after.executeAll statements).ending <;> simp [hending]

theorem executed_append {statements more : List Statement} :
    s.executed (statements ++ more) = s.executed statements ++
      match (s.executeAll statements).ending with
      | .finished => (s.executeAll statements).state.executed more
      | _ => [] := by
  induction statements generalizing s with
  | nil => rfl
  | cons statement statements ih =>
    rw [List.cons_append, executed, executed, executeAll]
    cases s.execute statement with
    | error e => rfl
    | ok result =>
      obtain ⟨after, said⟩ := result
      dsimp only
      cases after.running with
      | false => rfl
      | true => simp only [if_true, ih, List.cons_append]

end Interpreter

end Stepwise
