import Stepwise.Proofs.Rule.Printable
import Stepwise.Proofs.Session.Replay
import Stepwise.Proofs.RuleFile.ObjectRoundTrip
import Stepwise.Proofs.Interpreter.Deeds

namespace Stepwise

namespace Registry

variable {registry : Registry} {rule : Rule}

theorem IsPrintable.define (h : registry.IsPrintable) (hrule : rule.IsPrintable) (name : String) :
    (registry.define name rule).IsPrintable := by
  intro entry hentry
  rcases mem_putEntry hentry with rfl | hold
  · exact hrule
  · exact h entry hold

theorem IsPrintable.defineAll {rules : List Rule} (h : registry.IsPrintable)
    (hrules : ∀ rule ∈ rules, rule.IsPrintable) : (registry.defineAll rules).IsPrintable := by
  induction rules generalizing registry with
  | nil => exact h
  | cons rule rules ih =>
    rw [List.forall_mem_cons] at hrules
    exact ih (h.define hrules.1 _) hrules.2

end Registry

/-- The step can be typed in: its depth can be written, and so can its rule, either under the name
that it is looked up by or as it is. -/
structure Step.IsTypable (registry : Registry) (step : Step) : Prop where
  depth : Number.HasFewDigits step.depth
  rule : step.rule.name = none ∧ step.rule.IsPrintable ∨
    ∃ name, Token.isIdentifier name = true ∧ Keyword.ofWord? name = none ∧
      registry.find? name = some step.rule

/-- What a deed can do to the rules and to the session. -/
inductive Interpreter.Alters (s : Interpreter) : Deed → Registry → Session → Prop
  | kept (d : Deed) : Alters s d s.registry s.session
  | defined {name : String} {rule : Rule} (readable : (Statement.define name rule).IsReadable) :
      Alters s (.statement (.define name rule)) (s.registry.define name rule) s.session
  | loaded {file : String} {rules : List Rule}
      (read : s.store.readRules (Files.Path.ofString file) = .ok rules) :
      Alters s (.command (.load file)) (s.registry.defineAll rules) s.session
  | cleared : Alters s (.command .clear) ∅ s.session
  | begun {t : Term} (idle : s.session = .idle) (printable : t.isPrintable = true) :
      Alters s (.statement (.start t)) s.registry (.begin t)
  | stepped {d : Deed} {initial : Term} {steps : List Step} {made : Step}
      (active : s.session = .active initial steps made.before) (sound : made.Sound)
      (typable : made.IsTypable s.registry) :
      Alters s d s.registry (.active initial (made :: steps) made.after)
  | undone {initial current : Term} {steps : List Step} {made : Step}
      (active : s.session = .active initial (made :: steps) current) :
      Alters s (.statement .undo) s.registry (.active initial steps made.before)
  | ended {path : Option String} : Alters s (.statement (.finish path)) s.registry .idle

namespace Interpreter

variable {s after : Interpreter} {e : Event} {said : Option String}

theorem alters_of_makeStep {d : Deed} {ref : RuleRef} {depth : Nat}
    (typable : ∀ made : Step, s.registry.resolve ref = .ok made.rule → made.depth = depth →
      made.IsTypable s.registry)
    (h : s.makeStep ref depth = .ok (after, said)) :
    s.Alters d after.registry after.session := by
  obtain ⟨made, initial, steps, hs, hresolve, hdepth, hreduct, rfl, -⟩ := makeStep_cases h
  have hsound : made.Sound := ⟨hreduct, Rule.paths_ne_nil hreduct⟩
  exact .stepped hs hsound (typable made hresolve hdepth)

theorem alters_of_execute {statement : Statement} (readable : statement.IsReadable)
    (h : s.execute statement = .ok (after, said)) :
    s.Alters (.statement statement) after.registry after.session := by
  cases statement with
  | define name rule =>
    cases h
    exact .defined readable
  | inline rule depth =>
    refine alters_of_makeStep (fun made hmade hdepth => ?_) h
    subst hdepth
    cases hmade
    exact ⟨readable.2.2, Or.inl ⟨readable.1, readable.2.1⟩⟩
  | apply name depth =>
    obtain ⟨hidentifier, hfree, few⟩ := readable
    refine alters_of_makeStep (fun made hmade hdepth => ?_) h
    subst hdepth
    rw [Registry.resolve] at hmade
    split at hmade
    · rename_i rule hfind
      cases hmade
      exact ⟨few, Or.inr ⟨name, hidentifier, hfree, hfind⟩⟩
    · cases hmade
  | start t =>
    simp only [execute, startSession, Except.ok.injEq] at h
    split at h
    · cases h
      exact .kept _
    · rename_i hnone
      cases h
      cases hs : s.session with
      | idle => exact .begun hs readable
      | active initial steps current =>
        rw [hs] at hnone
        cases hnone
  | finish path =>
    cases hs : s.session with
    | idle =>
      simp only [execute, finish, hs, Session.derivation] at h
      cases h
      exact .kept _
    | active initial steps current =>
      obtain ⟨written, store, -, rfl, -⟩ := finish_cases hs h
      exact .ended
  | undo =>
    obtain ⟨made, initial, steps, current, hs, rfl, -⟩ := undoStep_cases h
    exact .undone hs
  | quit =>
    cases h
    exact .kept _

theorem alters_of_command {c : Command} (h : s.command c = .ok (after, said)) :
    s.Alters (.command c) after.registry after.session := by
  cases c with
  | load file =>
    simp only [command] at h
    split at h
    · cases h
      exact .kept _
    · cases hload : s.load (Files.Path.ofString file) with
      | ok loaded =>
        obtain ⟨rules, hread, hrules⟩ := ok_of_bind hload
        cases hrules
        unfold loadFile at h
        simp only [hload] at h
        cases h
        exact .loaded hread
      | error error =>
        rw [loadFile_of_error hload] at h
        obtain ⟨report, -, hsaid⟩ := ok_of_map h
        cases hsaid
        exact .kept _
  | display name =>
    simp only [command, chooseDisplay] at h
    split at h
    · cases h
      exact .kept _
    · split at h <;> cases h <;> exact .kept _
  | clear =>
    cases h
    exact .cleared
  | _ =>
    cases h
    exact .kept _

theorem Leads.alters (h : s.Leads e after) : s.Alters e.deed after.registry after.session := by
  cases h with
  | executed readable run => exact alters_of_execute readable run
  | answered run => exact alters_of_command run
  | failed | fatal => exact .kept _

end Interpreter

/-- Both sides have a text, and the pattern binds every variable of the replacement. -/
def Rule.IsComplete (rule : Rule) : Prop :=
  rule.IsPrintable ∧ ∀ x ∈ rule.replacement.vars, x ∈ rule.pattern.vars

theorem Rule.IsPrintable.complete {rule : Rule} (h : rule.IsPrintable) : rule.IsComplete :=
  ⟨h, rule.closed⟩

/-- Both terms of the step and its rule have a text. -/
def Step.IsPrintable (step : Step) : Prop :=
  step.before.isPrintable = true ∧ step.after.isPrintable = true ∧ step.rule.IsPrintable

/-- Every term of the session has a text, and so has every rule. -/
def Session.IsPrintable : Session → Prop
  | .idle => True
  | .active initial steps current => initial.isPrintable = true ∧ current.isPrintable = true ∧
      ∀ step ∈ steps, step.IsPrintable

/-- Everything that is held has a text. -/
structure Fields.IsPrintable (o : Fields) : Prop where
  rules : ∀ entry ∈ o.registry.entries, entry.2.IsComplete
  initial : ∀ t, o.initial = some t → t.isPrintable = true
  current : ∀ t, o.current = some t → t.isPrintable = true
  steps : ∀ step ∈ o.history, step.before.isPrintable = true ∧ step.after.isPrintable = true ∧
    step.rule.IsComplete

namespace Interpreter

variable {s s' after : Interpreter} {e : Event}

theorem isPrintable_fields (hregistry : s.registry.IsPrintable) (hsession : s.session.IsPrintable) :
    s.fields.IsPrintable := by
  obtain ⟨registry, session, display, outputDirectory, running, store⟩ := s
  cases session with
  | idle =>
    constructor
    · exact fun entry hentry => (hregistry entry hentry).complete
    · intro t ht
      cases ht
    · intro t ht
      cases ht
    · intro step hstep
      cases hstep
  | active initial steps current =>
    obtain ⟨hinitial, hcurrent, hsteps⟩ := hsession
    constructor
    · exact fun entry hentry => (hregistry entry hentry).complete
    · intro t ht
      cases ht
      exact hinitial
    · intro t ht
      cases ht
      exact hcurrent
    · intro step hstep
      obtain ⟨hbefore, hafter, hrule⟩ := hsteps step (List.mem_reverse.mp hstep)
      exact ⟨hbefore, hafter, hrule.complete⟩

/-- A deed leaves nothing without a text. -/
theorem Alters.isPrintable {d : Deed} {registry : Registry} {session : Session}
    (h : s.Alters d registry session) (hregistry : s.registry.IsPrintable)
    (hsession : s.session.IsPrintable) : registry.IsPrintable ∧ session.IsPrintable := by
  cases h with
  | kept => exact ⟨hregistry, hsession⟩
  | defined readable => exact ⟨hregistry.define readable.2.2.2 _, hsession⟩
  | loaded read =>
    exact ⟨hregistry.defineAll (Files.Store.isPrintable_of_readRules read), hsession⟩
  | cleared => exact ⟨nofun, hsession⟩
  | begun idle printable => exact ⟨hregistry, printable, printable, nofun⟩
  | @stepped _ initial steps made active sound typable =>
    rw [active] at hsession
    obtain ⟨hinitial, hbefore, hsteps⟩ := hsession
    have hrule : made.rule.IsPrintable := by
      rcases typable.rule with ⟨-, hprintable⟩ | ⟨name, -, -, hfind⟩
      · exact hprintable
      · exact hregistry _ (Table.find?_eq_some_iff.mp hfind)
    have hafter := Rule.isPrintable_reduct hrule hbefore sound.reduct
    refine ⟨hregistry, hinitial, hafter, ?_⟩
    exact List.forall_mem_cons.mpr ⟨⟨hbefore, hafter, hrule⟩, hsteps⟩
  | undone active =>
    rw [active] at hsession
    obtain ⟨hinitial, -, hsteps⟩ := hsession
    rw [List.forall_mem_cons] at hsteps
    exact ⟨hregistry, hinitial, hsteps.1.1, hsteps.2⟩
  | ended => exact ⟨hregistry, trivial⟩

theorem Trace.isPrintable {events : List Event} (h : Trace s events s')
    (hregistry : s.registry.IsPrintable) (hsession : s.session.IsPrintable) :
    (∀ e ∈ events, e.after.IsPrintable) ∧ s'.fields.IsPrintable := by
  induction h with
  | done => exact ⟨List.forall_mem_nil _, isPrintable_fields hregistry hsession⟩
  | next leads _ ih =>
    obtain ⟨hregistry', hsession'⟩ := leads.alters.isPrintable hregistry hsession
    obtain ⟨hevents, hlast⟩ := ih hregistry' hsession'
    refine ⟨List.forall_mem_cons.mpr ⟨?_, hevents⟩, hlast⟩
    rw [leads.after_eq]
    exact isPrintable_fields hregistry' hsession'

/-- Whatever lines are processed and whatever files they load, all terms and rules that the
interpreter holds have a text, after each of their statements and commands and at their end. -/
theorem isPrintable_of_lines (store : Files.Store) (display : Display)
    (outputDirectory : Option Files.Path) (lines : List String) :
    let s : Interpreter := { store, display, outputDirectory }
    (s.processLines lines).fields.IsPrintable ∧
      ∀ e ∈ Executing.events lines s.fields, e.after.IsPrintable := by
  intro s
  have hregistry : s.registry.IsPrintable := nofun
  have hsession : s.session.IsPrintable := trivial
  obtain ⟨hevents, hlast⟩ := (Executing.trace_events s lines).isPrintable hregistry hsession
  exact ⟨hlast, hevents⟩

end Interpreter

end Stepwise
