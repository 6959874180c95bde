import Mathlib.Data.List.DropRight
import Stepwise.Proofs.Rule.Equality
import Stepwise.Proofs.Language.Labels
import Stepwise.Proofs.Interpreter.Modes
import Stepwise.Proofs.Interpreter.Printable

namespace Stepwise

namespace Event

/-- No rule is lost, and none is replaced by another one. -/
def KeepsRules (e : Event) : Prop :=
  ∀ name rule, e.before.registry.find? name = some rule → e.after.registry.find? name = some rule

/-- Whether the deed defines no rule, or one under a new name, and neither loads nor clears any. -/
def isAdditive (e : Event) : Bool :=
  match e.deed with
  | .statement (.define name _) => !e.before.registry.contains name
  | .command (.load _) | .command .clear => false
  | _ => true

end Event

/-- The events since the session that is under way began. -/
def Executing.sessionEvents (events : List Event) : List Event :=
  events.rtakeWhile fun e => e.before.current.isSome

/-- Equal terms, equal rules under one label, one depth and the same paths. -/
structure Step.Same (step step' : Step) : Prop where
  before : step.before.same step'.before = true
  after : step.after.same step'.after = true
  rule : (step.rule == step'.rule) = true
  label : step.label = step'.label
  depth : step.depth = step'.depth
  paths : step.paths = step'.paths

section Typing

/-- The line holds the one statement. -/
structure Line.IsStatement (line : String) (statement : Statement) : Prop where
  kind : Line.ofText line = .program (Text.trim line)
  read : readProgram line = .ok [statement]

theorem Line.isStatement_of_read {line : String} {statement : Statement}
    (starts : ∃ c cs, line.toList = c :: cs ∧ Token.startsTerm c = true)
    (read : readProgram line = .ok [statement]) : Line.IsStatement line statement := by
  obtain ⟨c, cs, hline, hc⟩ := starts
  obtain ⟨hblank, hcomment, hcommand⟩ := Token.not_of_startsTerm hc
  have hfirst : line.toList = [] ++ c :: cs := hline
  exact ⟨Line.ofText_of_first hfirst (List.forall_mem_nil _) hblank hcomment hcommand, read⟩

theorem Term.isStatement_render {t : Term} (h : t.isPrintable = true) :
    Line.IsStatement t.render (.start t.asRead) := by
  refine Line.isStatement_of_read ?_ (readProgram_render h)
  rw [render, String.toList_ofList]
  exact exists_written_cons h

variable {registry : Registry} {step : Step}

theorem Step.exists_label_cons
    (h : ∃ c cs, step.rule.label.toList = c :: cs ∧ Token.startsTerm c = true) :
    ∃ c cs, step.label.toList = c :: cs ∧ Token.startsTerm c = true := by
  obtain ⟨c, cs, hrule, hc⟩ := h
  rw [label_eq_applySource, toList_applySource, hrule]
  exact ⟨c, _, rfl, hc⟩

/-- What is typed for a step makes a step at its depth, of a rule equal to its own. -/
theorem Step.IsTypable.exists_statement (h : step.IsTypable registry) (named : registry.WellNamed) :
    ∃ statement ref rule, Line.IsStatement step.label statement ∧
      (∀ s : Interpreter, s.execute statement = s.makeStep ref step.depth) ∧
      registry.resolve ref = .ok rule ∧ (step.rule == rule) = true := by
  rcases h.rule with ⟨hname, hprintable⟩ | ⟨name, hidentifier, hfree, hfind⟩
  · have hstarts : ∃ c cs, step.rule.label.toList = c :: cs ∧ Token.startsTerm c = true := by
      obtain ⟨c, cs, hpattern, hc⟩ := Term.exists_written_cons hprintable.1
      rw [Rule.label, hname, Rule.text, toList_ruleText, hpattern]
      exact ⟨c, _, rfl, hc⟩
    have hread := readProgram_label_unnamed hname hprintable h.depth
    have halike : step.rule.Alike step.rule.asRead :=
      ⟨Term.same_symm _ _ step.rule.pattern.same_asRead,
        Term.same_symm _ _ step.rule.replacement.same_asRead⟩
    exact ⟨_, .inline step.rule.asRead, step.rule.asRead,
      Line.isStatement_of_read (exists_label_cons hstarts) hread, fun s => rfl, rfl,
      Rule.beq_iff.mpr ⟨halike, rfl⟩⟩
  · have hname : step.rule.name = some name := (named _ (Table.find?_eq_some_iff.mp hfind)).1
    have hstarts : ∃ c cs, step.rule.label.toList = c :: cs ∧ Token.startsTerm c = true := by
      rw [label_of_named hname (Token.isEmpty_of_isIdentifier hidentifier)]
      exact Token.exists_cons_of_isIdentifier hidentifier
    have hread := readProgram_label_named hname hidentifier hfree h.depth
    have hresolve : registry.resolve (.named name) = .ok step.rule := by
      rw [Registry.resolve, hfind]
    exact ⟨_, .named name, step.rule,
      Line.isStatement_of_read (exists_label_cons hstarts) hread, fun s => rfl, hresolve,
      Rule.beq_iff.mpr ⟨.refl _, rfl⟩⟩

end Typing

theorem Display.present_of_same {t u : Term} (display : Display) (title : String)
    (h : t.same u = true) : display.present title t = display.present title u := by
  unfold present
  rw [Term.render_of_same h, Term.renderInfix_of_same h, Term.hasInfix_of_same h]

/-- The session is idle, or at the end of a derivation that can be typed in. -/
def Session.IsTypable (registry : Registry) : Session → Prop
  | .idle => True
  | .active initial steps current => initial.isPrintable = true ∧
      Replays initial steps.reverse current ∧ ∀ step ∈ steps, step.IsTypable registry

theorem Step.IsTypable.of_kept {registry registry' : Registry} {step : Step}
    (keeps : ∀ name rule, registry.find? name = some rule → registry'.find? name = some rule)
    (h : step.IsTypable registry) : step.IsTypable registry' := by
  refine ⟨h.depth, h.rule.imp_right ?_⟩
  rintro ⟨name, hidentifier, hfree, hfind⟩
  exact ⟨name, hidentifier, hfree, keeps name _ hfind⟩

theorem Session.IsTypable.of_kept {registry registry' : Registry} {session : Session}
    (keeps : session.isActive = true →
      ∀ name rule, registry.find? name = some rule → registry'.find? name = some rule)
    (h : session.IsTypable registry) : session.IsTypable registry' := by
  cases session with
  | idle => trivial
  | active initial steps current =>
    obtain ⟨hinitial, hreplays, hsteps⟩ := h
    exact ⟨hinitial, hreplays, fun step hstep => (hsteps step hstep).of_kept (keeps rfl)⟩

namespace Interpreter

variable {s s' : Interpreter} {registry : Registry} {session : Session} {d : Deed}

theorem Alters.wellNamed (h : s.Alters d registry session) (named : s.registry.WellNamed) :
    registry.WellNamed := by
  cases h with
  | defined readable => exact named.define readable.namesRule.2 _
  | loaded read => exact named.defineAll (Files.Store.readRules_named read)
  | cleared => exact Registry.wellNamed_empty
  | kept | begun | stepped | undone | ended => exact named

/-- Definitions of new names keep the rules, and so does all that defines no rule and clears none. -/
theorem Leads.keepsRules {e : Event} (h : s.Leads e s') (additive : e.isAdditive = true) :
    e.KeepsRules := by
  have halters := h.alters
  have hbefore : e.before.registry = s.registry := congrArg (·.registry) h.before_eq
  have hafter : e.after.registry = s'.registry := congrArg (·.registry) h.after_eq
  unfold Event.isAdditive at additive
  unfold Event.KeepsRules
  rw [hbefore] at additive ⊢
  rw [hafter]
  intro name rule hfind
  generalize e.deed = deed, s'.registry = registry, s'.session = session at halters additive ⊢
  cases halters with
  | @defined new _ _ =>
    have hfresh : name ≠ new := by
      rintro rfl
      simp [Table.contains, hfind] at additive
    rw [Registry.define, Table.find?_put, if_neg hfresh, hfind]
  | loaded | cleared => cases additive
  | kept | begun | stepped | undone | ended => exact hfind

/-- A deed that keeps the rules leaves a derivation that can be typed in. -/
theorem Alters.isTypable (h : s.Alters d registry session)
    (keeps : s.session.isActive = true →
      ∀ name rule, s.registry.find? name = some rule → registry.find? name = some rule)
    (hs : s.session.IsTypable s.registry) : session.IsTypable registry := by
  cases h with
  | kept => exact hs
  | defined | loaded | cleared => exact hs.of_kept keeps
  | begun idle printable => exact ⟨printable, rfl, nofun⟩
  | stepped active sound typable =>
    rw [active] at hs
    obtain ⟨hinitial, hreplays, hsteps⟩ := hs
    refine ⟨hinitial, ?_, List.forall_mem_cons.mpr ⟨typable, hsteps⟩⟩
    rw [List.reverse_cons]
    exact hreplays.append rfl sound
  | undone active =>
    rw [active] at hs
    obtain ⟨hinitial, hreplays, hsteps⟩ := hs
    rw [List.reverse_cons] at hreplays
    exact ⟨hinitial, hreplays.before_last, (List.forall_mem_cons.mp hsteps).2⟩
  | ended => trivial

theorem Trace.wellNamed {events : List Event} (h : Trace s events s')
    (named : s.registry.WellNamed) : s'.registry.WellNamed := by
  induction h with
  | done => exact named
  | next leads _ ih => exact ih (leads.alters.wellNamed named)

/-- Induction from the last event back: only those of the session under way have to keep the
rules. -/
theorem Trace.isTypable {events : List Event} (h : Trace s events s') (idle : s.session = .idle)
    (keeps : ∀ e ∈ Executing.sessionEvents events, e.KeepsRules) :
    s'.session.IsTypable s'.registry := by
  induction events using List.reverseRecOn generalizing s' with
  | nil =>
    cases h
    rw [idle]
    trivial
  | append_singleton events e ih =>
    obtain ⟨middle, hevents, hlast⟩ := h.of_append
    have leads := hlast.leads_of_singleton
    cases hactive : e.before.current.isSome with
    | false =>
      have hidle : middle.session = .idle := by
        rw [leads.before_eq, Option.isSome_eq_false_iff, Option.isNone_iff_eq_none] at hactive
        exact idle_of_current hactive
      refine leads.alters.isTypable (fun hsome => ?_) ?_
      · rw [hidle] at hsome
        cases hsome
      · rw [hidle]
        trivial
    | true =>
      have hsession : Executing.sessionEvents (events ++ [e]) =
          Executing.sessionEvents events ++ [e] := List.rtakeWhile_concat_pos _ _ _ hactive
      rw [hsession, List.forall_mem_append, List.forall_mem_singleton] at keeps
      have hkeeps := keeps.2
      rw [Event.KeepsRules, leads.before_eq, leads.after_eq] at hkeeps
      exact leads.alters.isTypable (fun _ => hkeeps) (ih hevents keeps.1)

/-- The answers to lines that are processed one after another. -/
def answers (s : Interpreter) : List String → List (Except Fatal (Option String))
  | [] => []
  | line :: lines => (s.processLine line).answer :: (s.processLine line).state.answers lines

theorem processLine_of_isStatement {line said : String} {statement : Statement}
    {after : Interpreter} (h : Line.IsStatement line statement)
    (run : s.execute statement = .ok (after, some said)) (running : after.running = true) :
    s.processLine line = { state := after, answer := .ok (some said) } := by
  rw [processLine_of_program h.kind h.read]
  simp only [executeAll, run, running, if_true]
  rfl

theorem makeStep_of_reduct {ref : RuleRef} {rule : Rule} {depth : Nat} {initial current : Term}
    {steps : List Step} {r : Reduct} (hs : s.session = .active initial steps current)
    (hresolve : s.registry.resolve ref = .ok rule) (hreduct : rule.reduct current depth = .ok r) :
    s.makeStep ref depth = .ok
      ({ s with session := .active initial (⟨current, rule, depth, r.term, r.paths⟩ :: steps) r.term },
        some (s.present "    " r.term)) := by
  unfold makeStep
  rw [hs, Session.step_active]
  simp only [hresolve, hreduct]
  rfl

/-- The label of a step makes the step again, from an equal term. -/
theorem processLine_label {made : Step} {initial current : Term} {steps : List Step}
    (hs : s.session = .active initial steps current) (running : s.running = true)
    (named : s.registry.WellNamed) (typable : made.IsTypable s.registry) (sound : made.Sound)
    (hcurrent : made.before.same current = true) : ∃ again, made.Same again ∧
      s.processLine made.label =
        { state := { s with session := .active initial (again :: steps) again.after }
          answer := .ok (some (s.present "    " made.after)) } := by
  obtain ⟨statement, ref, rule, hline, hexecute, hresolve, hrule⟩ := typable.exists_statement named
  obtain ⟨halike, -⟩ := Rule.beq_iff.mp hrule
  rcases Rule.reduct_of_same halike hcurrent made.depth with
    ⟨r, r', hr, hr', hsame⟩ | ⟨_, hr, -⟩ | ⟨-, hr, -⟩
  · rw [sound.reduct] at hr
    cases hr
    let again : Step := ⟨current, rule, made.depth, r'.term, r'.paths⟩
    have hlabel : made.label = again.label := by
      unfold Step.label
      rw [Rule.label_of_beq hrule]
    refine ⟨again, ⟨hcurrent, hsame.term, hrule, hlabel, rfl, hsame.paths⟩, ?_⟩
    have hpresent : s.present "    " made.after = s.present "    " again.after :=
      Display.present_of_same _ _ hsame.term
    rw [hpresent]
    refine processLine_of_isStatement hline ?_ running
    rw [hexecute]
    exact makeStep_of_reduct hs hresolve hr'
  · rw [sound.reduct] at hr
    cases hr
  · rw [sound.reduct] at hr
    cases hr

/-- The labels of steps that lead on make them again, one after another. -/
theorem answers_labels {steps done : List Step} {t u initial current : Term}
    (hs : s.session = .active initial done current) (running : s.running = true)
    (named : s.registry.WellNamed) (typable : ∀ step ∈ steps, step.IsTypable s.registry)
    (h : Replays t steps u) (ht : t.same current = true) :
    s.answers (steps.map Step.label) =
        steps.map (fun step => .ok (some (s.present "    " step.after))) ∧
      ∃ again last, s.processLines (steps.map Step.label) =
          { s with session := .active initial (again.reverse ++ done) last } ∧
        List.Forall₂ Step.Same steps again ∧ u.same last = true := by
  induction steps generalizing s t current done with
  | nil =>
    subst h
    refine ⟨rfl, [], current, ?_, .nil, ht⟩
    rw [List.reverse_nil, List.nil_append, ← hs]
    rfl
  | cons step steps ih =>
    obtain ⟨rfl, sound, hreplays⟩ := h
    rw [List.forall_mem_cons] at typable
    obtain ⟨again, hsame, hprocess⟩ := processLine_label hs running named typable.1 sound ht
    let next : Interpreter := { s with session := .active initial (again :: done) again.after }
    have hnext : next.session = .active initial (again :: done) again.after := rfl
    obtain ⟨hanswers, later, last, hstate, hlater, hlast⟩ :=
      ih hnext running named typable.2 hreplays hsame.after
    refine ⟨?_, again :: later, last, ?_, .cons hsame hlater, hlast⟩
    · rw [List.map_cons, answers, hprocess, List.map_cons, hanswers]
      rfl
    · rw [List.map_cons, processLines, List.foldl_cons, hprocess, ← processLines, hstate,
        List.reverse_cons, List.append_assoc, List.singleton_append]

/-- A derivation can be typed in again. Whatever lines were processed, if no rule was lost or
replaced while the session was under way, then a new interpreter with the same rules answers the
initial term and the labels of the steps with the terms of the session, and ends at an equal term
behind equal steps, with nothing else changed. -/
theorem retypes_derivation {s fresh : Interpreter} {lines : List String} {initial current : Term}
    {steps : List Step} (named : s.registry.WellNamed) (idle : s.session = .idle)
    (active : (s.processLines lines).session = .active initial steps current)
    (keeps : ∀ e ∈ Executing.sessionEvents (Executing.events lines s.fields), e.KeepsRules)
    (rules : fresh.registry = (s.processLines lines).registry) (new : fresh.session = .idle)
    (running : fresh.running = true) :
    let typed := initial.render :: steps.reverse.map Step.label
    fresh.answers typed = .ok (some (fresh.present "Start matching on: " initial)) ::
        steps.reverse.map (fun step => .ok (some (fresh.present "    " step.after))) ∧
      ∃ initial' steps' current', fresh.processLines typed =
          { fresh with session := .active initial' steps' current' } ∧
        initial.same initial' = true ∧ List.Forall₂ Step.Same steps steps' ∧
        current.same current' = true := by
  intro typed
  have htrace := Executing.trace_events s lines
  have htypable := htrace.isTypable idle keeps
  have hnamed := htrace.wellNamed named
  rw [active, ← rules] at htypable
  rw [← rules] at hnamed
  obtain ⟨hinitial, hreplays, hsteps⟩ := htypable
  have hsame : initial.same initial.asRead = true := Term.same_symm _ _ initial.same_asRead
  let begun : Interpreter := { fresh with session := .begin initial.asRead }
  have hstart : fresh.processLine initial.render =
      { state := begun, answer := .ok (some (fresh.present "Start matching on: " initial)) } := by
    have hpresent : fresh.present "Start matching on: " initial =
        fresh.present "Start matching on: " initial.asRead := Display.present_of_same _ _ hsame
    rw [hpresent]
    refine processLine_of_isStatement (Term.isStatement_render hinitial) ?_ running
    rw [execute, startSession, new]
    rfl
  have hbegun : begun.session = .active initial.asRead [] initial.asRead := rfl
  have hlater : ∀ step ∈ steps.reverse, step.IsTypable begun.registry :=
    fun step hstep => hsteps step (List.mem_reverse.mp hstep)
  obtain ⟨hanswers, again, last, hstate, hagain, hlast⟩ :=
    answers_labels hbegun running hnamed hlater hreplays hsame
  refine ⟨?_, initial.asRead, again.reverse, last, ?_, hsame, ?_, hlast⟩
  · rw [answers, hstart, hanswers]
    rfl
  · rw [processLines, List.foldl_cons, hstart, ← processLines, hstate, List.append_nil]
  · rwa [← List.forall₂_reverse_iff, List.reverse_reverse]

/-- A rule by its name and one in line, behind a step that failed and another that was taken back.
A further rule is defined under way. -/
theorem retypes_derivation_undone :
    let s : Interpreter := {}
    let lines := ["def zero as x + 0 => x; f(y + 0, 2)", "zero at 1; zero at 1", "undo",
      "def one as x * 1 => x; 2 => g(0.5) at 1", "zero at 1"]
    let reached := s.processLines lines
    let fresh : Interpreter := { registry := reached.registry }
    ∃ initial steps current, reached.session = .active initial steps current ∧ steps.length = 2 ∧
      let typed := initial.render :: steps.reverse.map Step.label
      fresh.answers typed = .ok (some (fresh.present "Start matching on: " initial)) ::
          steps.reverse.map (fun step => .ok (some (fresh.present "    " step.after))) ∧
        ∃ initial' steps' current', fresh.processLines typed =
            { fresh with session := .active initial' steps' current' } ∧
          initial.same initial' = true ∧ List.Forall₂ Step.Same steps steps' ∧
          current.same current' = true := by
  intro s lines reached fresh
  have rules : fresh.registry = reached.registry := by simp only [fresh]
  have hlength : (match reached.session with
    | .idle => false
    | .active _ steps _ => steps.length == 2) = true := by decide +kernel
  have hadditive : (Executing.sessionEvents (Executing.events lines s.fields)).all
      Event.isAdditive = true := by decide +kernel
  rw [List.all_eq_true] at hadditive
  cases hsession : reached.session with
  | idle =>
    rw [hsession] at hlength
    cases hlength
  | active initial steps current =>
    rw [hsession, beq_iff_eq] at hlength
    have keeps : ∀ e ∈ Executing.sessionEvents (Executing.events lines s.fields), e.KeepsRules := by
      intro e he
      have hmem := (List.rtakeWhile_suffix _ _).subset he
      obtain ⟨before, after, hleads⟩ := (Executing.trace_events s lines).exists_leads e hmem
      exact hleads.keepsRules (hadditive e he)
    exact ⟨initial, steps, current, rfl, hlength,
      retypes_derivation Registry.wellNamed_empty rfl hsession keeps rules rfl rfl⟩

end Interpreter

end Stepwise
