import Stepwise.Proofs.RuleFile.Names
import Stepwise.Proofs.Session.Operations

namespace Stepwise

/-- A registry and the fields of a session. Nothing ties the fields to one another. -/
structure Slots where
  registry : Registry := ∅
  initial : Option Term := none
  current : Option Term := none
  history : List Step := []

def Session.initial? : Session → Option Term
  | .idle => none
  | .active initial _ _ => some initial

def Workspace.slots (w : Workspace) : Slots where
  registry := w.registry
  initial := w.session.initial?
  current := w.session.current?
  history := w.session.history

/-- A program that assigns to the fields and may fail at any point. -/
abbrev InPlace (α : Type) := ExceptT Workspace.Failure (StateM Slots) α

namespace InPlace

open Workspace (Failure Operation)

/-- The outcome of a program, and the fields it leaves. -/
def runOn {α : Type} (program : InPlace α) (o : Slots) : Except Failure α × Slots :=
  program.run.run o

def currentTerm : InPlace Term := do
  match (← get).current with
  | some t => return t
  | none => throw (.step .notStarted)

def resolve (ref : RuleRef) : InPlace Rule := do
  ((← get).registry.resolve ref).mapError Failure.step

def start : Argument → InPlace Workspace.Answer
  | .term t => do
    modify fun o => { o with initial := some t }
    modify fun o => { o with current := some t }
    modify fun o => { o with history := [] }
    return .done
  | .data value => throw (.notATerm value)

def step (ref : RuleRef) (depth : Int) : InPlace Workspace.Answer := do
  let before ← currentTerm
  let rule ← resolve ref
  let result ← (rule.reduct before depth).mapError Failure.step
  let made : Step :=
    { before, rule, depth := depth.toNat, after := result.term, paths := result.paths }
  modify fun o => { o with history := o.history ++ [made] }
  modify fun o => { o with current := some made.after }
  return .term made.after

def undo : InPlace Workspace.Answer := do
  let _ ← currentTerm
  match (← get).history.getLast? with
  | none => throw (.step .nothingToUndo)
  | some made =>
    modify fun o => { o with history := o.history.dropLast }
    modify fun o => { o with current := some made.before }
    return .term made.before

def findMatches (ref : RuleRef) (depth : Int) : InPlace Workspace.Answer := do
  let t ← currentTerm
  let rule ← resolve ref
  let places ← (t.findMatches rule.pattern depth).mapError Failure.step
  return .found places

/-- A session under way has an initial term. -/
def derivation : InPlace Derivation := do
  let final ← currentTerm
  let o ← get
  return { initial := o.initial.getD final, steps := o.history, final }

def finish : InPlace Workspace.Answer := do
  let d ← derivation
  modify fun o => { o with initial := none }
  modify fun o => { o with current := none }
  modify fun o => { o with history := [] }
  return .derivation d

def define (name : String) (rule : Rule) : InPlace Rule := do
  if name.isEmpty then throw .unnamedRule
  let named := rule.named name
  modify fun o => { o with registry := o.registry.put name named }
  return named

/-- Defines rule after rule; one without a name would stop this halfway. -/
def defineAll : List Rule → InPlace Unit
  | [] => return
  | rule :: rules => do
    let _ ← define (rule.name.getD "") rule
    defineAll rules

def perform : Operation → InPlace Workspace.Answer
  | .start expression => start expression
  | .step ref depth => step ref depth
  | .undo => undo
  | .findMatches ref depth => findMatches ref depth
  | .derivation => do return .derivation (← derivation)
  | .finish => finish
  | .define name rule => do return .rule (← define name rule)
  | .loadText text => do
    let rules ← (readDefinitions text).mapError Failure.text
    defineAll rules
    return .done
  | .loadFile store path => do
    let rules ← (store.readRules path).mapError Failure.file
    defineAll rules
    return .done
  | .clear => do
    modify fun o => { o with registry := ∅ }
    return .done

variable {α β : Type} {o : Slots} {w : Workspace}

theorem runOn_bind {program : InPlace α} {rest : α → InPlace β} :
    (program >>= rest).runOn o = match program.runOn o with
      | (.ok a, after) => (rest a).runOn after
      | (.error e, after) => (.error e, after) := by
  change ExceptT.bindCont rest (program.runOn o).1 (program.runOn o).2 = _
  rcases program.runOn o with ⟨_ | _, _⟩ <;> rfl

@[simp] theorem runOn_get : (get : InPlace Slots).runOn o = (.ok o, o) := rfl

@[simp] theorem runOn_modify (f : Slots → Slots) :
    (modify f : InPlace PUnit).runOn o = (.ok ⟨⟩, f o) := rfl

@[simp] theorem runOn_lift (x : Except Failure α) : (liftM x : InPlace α).runOn o = (x, o) := rfl

theorem runOn_currentTerm : currentTerm.runOn o =
    match o.current with
    | some t => (.ok t, o)
    | none => (.error (.step .notStarted), o) := by
  simp only [currentTerm, runOn_bind, runOn_get]
  cases o.current <;> rfl

theorem runOn_resolve (ref : RuleRef) :
    (resolve ref).runOn o = ((o.registry.resolve ref).mapError .step, o) := rfl

/-- The program has the outcome, and leaves the fields of the workspace after it; where it fails, those
of the workspace as it was. -/
def Performs (program : InPlace α) (w : Workspace) (outcome : Except Failure (α × Workspace)) :
    Prop :=
  program.runOn w.slots = match outcome with
    | .ok (a, after) => (.ok a, after.slots)
    | .error e => (.error e, w.slots)

theorem start_performs (expression : Argument) :
    Performs (start expression) w (w.perform (.start expression)) := by
  cases expression <;> rfl

theorem slots_stepped (registry : Registry) (initial : Term) (steps : List Step) (made : Step) :
    Workspace.slots ⟨registry, .active initial (made :: steps) made.after⟩ =
      { registry, initial := some initial, current := some made.after
        history := steps.reverse ++ [made] } := by
  rw [← List.reverse_cons]
  rfl

theorem step_performs (ref : RuleRef) (depth : Int) :
    Performs (step ref depth) w (w.perform (.step ref depth)) := by
  obtain ⟨registry, session⟩ := w
  cases session with
  | idle => rfl
  | active initial steps current =>
    simp only [Performs, step, Workspace.perform, Session.step_active, runOn_bind, runOn_currentTerm,
      runOn_resolve, Workspace.slots, Session.current?]
    cases registry.resolve ref with
    | error e => rfl
    | ok rule =>
      simp only [mapError_ok]
      cases rule.reduct current depth with
      | error e => rfl
      | ok r =>
        have hslots := slots_stepped registry initial steps
          ⟨current, rule, depth.toNat, r.term, r.paths⟩
        exact congrArg (Prod.mk (Except.ok (Workspace.Answer.term r.term))) hslots.symm

theorem undo_performs : Performs undo w (w.perform .undo) := by
  obtain ⟨registry, session⟩ := w
  cases session with
  | idle => rfl
  | active initial steps current =>
    cases steps with
    | nil => rfl
    | cons made steps =>
      simp only [Performs, undo, runOn_bind, runOn_currentTerm, Workspace.slots, Session.current?,
        Session.history, runOn_get, List.getLast?_reverse, List.head?_cons, runOn_modify,
        List.dropLast_reverse, List.tail_cons]
      rfl

theorem finish_performs : Performs finish w (w.perform .finish) := by
  obtain ⟨registry, session⟩ := w
  cases session <;> rfl

theorem define_performs (name : String) (rule : Rule) :
    Performs (perform (.define name rule)) w (w.perform (.define name rule)) := by
  simp only [Performs, perform, define, Workspace.perform, Registry.define?]
  cases name.isEmpty <;> rfl

theorem runOn_define {name : String} (h : name.isEmpty = false) (rule : Rule) :
    (define name rule).runOn o =
      (.ok (rule.named name), { o with registry := o.registry.define name rule }) := by
  simp only [define, h]
  rfl

/-- Rules that have names are all defined. -/
theorem runOn_defineAll {rules : List Rule} (h : ∀ rule ∈ rules, rule.IsNamed) :
    (defineAll rules).runOn o = (.ok (), { o with registry := o.registry.defineAll rules }) := by
  induction rules generalizing o with
  | nil => rfl
  | cons rule rules ih =>
    rw [List.forall_mem_cons] at h
    obtain ⟨⟨name, hname, hempty⟩, hrules⟩ := h
    simp only [defineAll, runOn_bind, hname, Option.getD_some, runOn_define hempty, ih hrules,
      Registry.defineAll, List.foldl_cons]

/-- A load fails before the first definition, or defines all rules. -/
theorem runOn_load {source : Except Failure (List Rule)} :
    (∀ rules, source = .ok rules → ∀ rule ∈ rules, rule.IsNamed) →
    (do defineAll (← source); return Workspace.Answer.done : InPlace Workspace.Answer).runOn o =
      match source with
      | .error e => (.error e, o)
      | .ok rules => (.ok .done, { o with registry := o.registry.defineAll rules }) := by
  intro h
  simp only [runOn_bind, runOn_lift]
  cases source with
  | error e => rfl
  | ok rules =>
    simp only [runOn_defineAll (h rules rfl)]
    rfl

theorem loadFile_performs (store : Files.Store) (path : Files.Path) :
    Performs (perform (.loadFile store path)) w (w.perform (.loadFile store path)) := by
  unfold Performs
  rw [perform, runOn_load fun _ h => Files.Store.readRules_named (ok_of_mapError h)]
  simp only [Workspace.perform]
  cases store.readRules path <;> rfl

end InPlace

end Stepwise
