import Stepwise.Proofs.Language.FunctorRoundTrip
import Stepwise.Proofs.Rule.Equality
import Stepwise.Proofs.Session.Operations

namespace Stepwise

/-- The same step, of equal terms. -/
structure Step.Alike (made made' : Step) : Prop where
  before : made.before.same made'.before = true
  rule : made.rule = made'.rule
  depth : made.depth = made'.depth
  after : made.after.same made'.after = true
  paths : made.paths = made'.paths

structure Derivation.Alike (d d' : Derivation) : Prop where
  initial : d.initial.same d'.initial = true
  steps : List.Forall₂ Step.Alike d.steps d'.steps
  final : d.final.same d'.final = true

namespace Session

inductive Alike : Session → Session → Prop
  | idle : Alike .idle .idle
  | active {initial initial' current current' : Term} {steps steps' : List Step}
      (hinitial : initial.same initial' = true) (hsteps : List.Forall₂ Step.Alike steps steps')
      (hcurrent : current.same current' = true) :
      Alike (.active initial steps current) (.active initial' steps' current')

theorem begin_alike {t t' : Term} (h : t.same t' = true) : (begin t).Alike (begin t') :=
  .active h .nil h

variable {s s' : Session}

theorem step_alike (h : s.Alike s') (registry : Registry) (ref : RuleRef) (depth : Int) :
    SameOutcome (fun m m' => m.1.Alike m'.1 ∧ m.2.Alike m'.2) (s.step registry ref depth)
      (s'.step registry ref depth) := by
  cases h with
  | idle => exact .error StepError.notStarted
  | active hinitial hsteps hcurrent =>
    rw [step_active, step_active]
    cases registry.resolve ref with
    | error e => exact .error e
    | ok rule =>
      rcases Rule.reduct_of_same (Rule.Alike.refl rule) hcurrent depth with
        ⟨r, r', hr, hr', halike⟩ | ⟨d, hr, hr'⟩ | ⟨-, hr, hr'⟩
      · simp only [hr, hr']
        have hmade : Step.Alike ⟨_, rule, depth.toNat, r.term, r.paths⟩
            ⟨_, rule, depth.toNat, r'.term, r'.paths⟩ :=
          ⟨hcurrent, rfl, rfl, halike.term, halike.paths⟩
        exact .ok ⟨hmade, .active hinitial (.cons hmade hsteps) halike.term⟩
      · simp only [hr, hr']
        exact .error _
      · simp only [hr, hr']
        exact .error _

theorem undo_alike (h : s.Alike s') :
    SameOutcome (fun m m' => m.1.same m'.1 = true ∧ m.2.Alike m'.2) s.undo s'.undo := by
  cases h with
  | idle => exact .error StepError.notStarted
  | active hinitial hsteps hcurrent =>
    cases hsteps with
    | nil => exact .error StepError.nothingToUndo
    | cons hmade hsteps => exact .ok ⟨hmade.before, .active hinitial hsteps hmade.before⟩

theorem findMatches_alike (h : s.Alike s') (registry : Registry) (ref : RuleRef) (depth : Int) :
    SameOutcome (List.Forall₂ Term.FoundAlike) (s.findMatches registry ref depth)
      (s'.findMatches registry ref depth) := by
  cases h with
  | idle => exact .error StepError.notStarted
  | active hinitial hsteps hcurrent =>
    simp only [findMatches, bind, Except.bind]
    cases registry.resolve ref with
    | error e => exact .error e
    | ok rule =>
      simp only [Term.findMatches]
      cases checkedDepth depth with
      | error e => exact .error e
      | ok d => exact .ok (Term.matchesAt_of_same (Term.same_refl rule.pattern) hcurrent d)

theorem derivation_alike (h : s.Alike s') :
    SameOutcome Derivation.Alike s.derivation s'.derivation := by
  cases h with
  | idle => exact .error StepError.notStarted
  | active hinitial hsteps hcurrent =>
    exact .ok ⟨hinitial, List.forall₂_reverse_iff.mpr hsteps, hcurrent⟩

end Session

namespace Workspace

/-- One registry, and sessions that differ in the form of constants only. -/
structure Alike (w w' : Workspace) : Prop where
  registry : w.registry = w'.registry
  session : w.session.Alike w'.session

inductive Answer.Alike : Answer → Answer → Prop
  | done : Alike .done .done
  | term {t t' : Term} (h : t.same t' = true) : Alike (.term t) (.term t')
  | found {places places' : List (Path × Bindings)}
      (h : List.Forall₂ Term.FoundAlike places places') : Alike (.found places) (.found places')
  | derivation {d d' : Derivation} (h : d.Alike d') : Alike (.derivation d) (.derivation d')
  | rule (rule : Rule) : Alike (.rule rule) (.rule rule)

/-- Alike answers, and alike workspaces after them. -/
def EndsAlike (m m' : Answer × Workspace) : Prop := m.1.Alike m'.1 ∧ m.2.Alike m'.2

variable {w w' : Workspace}

theorem perform_alike (h : w.Alike w') (op : Operation) :
    SameOutcome EndsAlike (w.perform op) (w'.perform op) := by
  obtain ⟨registry, session⟩ := w
  obtain ⟨_, session'⟩ := w'
  obtain ⟨rfl, hsession⟩ := h
  cases op with
  | start expression =>
    cases expression with
    | term t => exact .ok ⟨.done, rfl, Session.begin_alike (Term.same_refl t)⟩
    | data value => exact .error (Failure.notATerm value)
  | step ref depth =>
    refine (Session.step_alike hsession registry ref depth).bind_mapError ?_
    intro m m' hm
    exact .ok ⟨.term hm.1.after, rfl, hm.2⟩
  | undo =>
    refine (Session.undo_alike hsession).bind_mapError ?_
    intro m m' hm
    exact .ok ⟨.term hm.1, rfl, hm.2⟩
  | findMatches ref depth =>
    refine (Session.findMatches_alike hsession registry ref depth).bind_mapError ?_
    intro places places' hplaces
    exact .ok ⟨.found hplaces, rfl, hsession⟩
  | derivation =>
    refine (Session.derivation_alike hsession).bind_mapError ?_
    intro d d' hd
    exact .ok ⟨.derivation hd, rfl, hsession⟩
  | finish =>
    refine (Session.derivation_alike hsession).bind_mapError ?_
    intro d d' hd
    exact .ok ⟨.derivation hd, rfl, .idle⟩
  | define name rule =>
    simp only [perform]
    cases registry.define? name rule with
    | none => exact .error Failure.unnamedRule
    | some registry' => exact .ok ⟨.rule _, rfl, hsession⟩
  | loadText text =>
    simp only [perform]
    cases readDefinitions text with
    | error e => exact .error (Failure.text e)
    | ok rules => exact .ok ⟨.done, rfl, hsession⟩
  | loadFile store path =>
    simp only [perform]
    cases store.readRules path with
    | error e => exact .error (Failure.file e)
    | ok rules => exact .ok ⟨.done, rfl, hsession⟩
  | clear => exact .ok ⟨.done, rfl, hsession⟩

theorem next_alike (h : w.Alike w') (op : Operation) : (w.next op).Alike (w'.next op) := by
  have hperform := perform_alike h op
  rw [next, next]
  generalize w.perform op = outcome, w'.perform op = outcome' at hperform
  cases hperform with
  | ok hresult => exact hresult.2
  | error e => exact h

theorem run_alike (h : w.Alike w') (ops : List Operation) : (w.run ops).Alike (w'.run ops) := by
  induction ops generalizing w w' with
  | nil => exact h
  | cons op ops ih => exact ih (next_alike h op)

end Workspace

/-- Terms that differ only in the form of equal constants are written alike, match alike, and are
rewritten alike by rules that differ no more. A printable term that is printed and read back is such
a term, so every operation on a session that begins with it has the same outcome as before, and
leads on to the same outcomes. -/
theorem alike_of_same :
    (∀ t t' : Term, (t == t') = true → t.render = t'.render ∧ t.renderInfix = t'.renderInfix) ∧
    (∀ p p' t t' : Term, (p == p') = true → (t == t') = true →
      (p.match? t = none ∧ p'.match? t' = none) ∨
      ∃ b b', p.match? t = some b ∧ p'.match? t' = some b' ∧ b.names = b'.names ∧
        b.same b' = true) ∧
    (∀ p p' q q' : Term, (p == p') = true → (q == q') = true → ∀ name name' : Option String,
      (∃ e e', Rule.make? p q name = .error e ∧ Rule.make? p' q' name' = .error e' ∧
        e.message = e'.message) ∨
      ∃ rule rule', Rule.make? p q name = .ok rule ∧ Rule.make? p' q' name' = .ok rule' ∧
        ∀ t t' : Term, (t == t') = true → ∀ depth : Int,
          (∃ r r', rule.reduct t depth = .ok r ∧ rule'.reduct t' depth = .ok r' ∧
            (r.term == r'.term) = true ∧ r.paths = r'.paths) ∨
          (∃ d, rule.reduct t depth = .error (.noMatch rule d) ∧
            rule'.reduct t' depth = .error (.noMatch rule' d)) ∨
          (depth < 0 ∧ rule.reduct t depth = .error (.negativeDepth depth) ∧
            rule'.reduct t' depth = .error (.negativeDepth depth))) ∧
    ∀ t : Term, t.isPrintable = true → ∃ u, readTerm t.render = .ok u ∧
      readTerm t.renderInfix = .ok u ∧ (t == u) = true ∧
      ∀ (registry : Registry) (ops : List Workspace.Operation) (op : Workspace.Operation),
        let before : Workspace := { registry, session := .begin t }
        let after : Workspace := { registry, session := .begin u }
        SameOutcome Workspace.EndsAlike ((before.run ops).perform op) ((after.run ops).perform op) := by
  refine ⟨fun t t' h => ⟨Term.render_of_same h, Term.renderInfix_of_same h⟩, ?_, ?_, ?_⟩
  · intro p p' t t' hp ht
    have hmatch := Term.match?_of_same hp ht
    generalize p.match? t = found, p'.match? t' = found' at hmatch
    cases hmatch with
    | none => exact Or.inl ⟨rfl, rfl⟩
    | some hb => exact Or.inr ⟨_, _, rfl, rfl, hb.names_eq, hb.same⟩
  · intro p p' q q' hp hq name name'
    rcases Rule.make?_of_same hp hq name name' with herror | ⟨rule, rule', hrule, hrule', halike⟩
    · exact Or.inl herror
    · refine Or.inr ⟨rule, rule', hrule, hrule', fun t t' ht depth => ?_⟩
      rcases Rule.reduct_of_same halike ht depth with ⟨r, r', hr, hr', hsame⟩ | hrefused
      · exact Or.inl ⟨r, r', hr, hr', hsame.term, hsame.paths⟩
      · exact Or.inr hrefused
  · intro t ht
    have hsame : t.same t.asRead = true := Term.same_symm _ _ t.same_asRead
    refine ⟨t.asRead, readTerm_render_eq ht, readTerm_renderInfix_eq ht, hsame, ?_⟩
    intro registry ops op before after
    have hbegin : before.Alike after := ⟨rfl, Session.begin_alike hsame⟩
    exact Workspace.perform_alike (Workspace.run_alike hbegin ops) op

/-- The pattern's variable meets 10^22 as an integer and as a binary64 number, the other way round in the
other term; the zeros beside it differ in sign and form as well. -/
theorem alike_of_same_zeros :
    let zero := Term.const (.int 0)
    let negativeZero := Term.const (.float (.zero true))
    let integral := Term.app "add" [.const (.int (10 ^ 22)), negativeZero]
    let rounded := Term.app "add" [.const (.float ⟨false, 4768371582031250, 21, by decide⟩), zero]
    let t := Term.app "mul" [integral, rounded]
    let t' := Term.app "mul" [rounded, integral]
    let rule : Rule :=
      { pattern := .app "mul" [.app "add" [.var "x", zero], .app "add" [.var "x", negativeZero]]
        replacement := .app "pow" [.var "x", .const (.int 2)], closed := by decide }
    let rule' : Rule :=
      { pattern := .app "mul" [.app "add" [.var "x", negativeZero], .app "add" [.var "x", zero]]
        replacement := .app "pow" [.var "x", .const (.float ⟨false, 4503599627370496, -51, by decide⟩)]
        closed := by decide }
    (t == t') = true ∧ (rule.pattern == rule'.pattern) = true ∧
      (rule.replacement == rule'.replacement) = true ∧ t.isPrintable = true ∧
      t.renderInfix = t'.renderInfix ∧
      (∃ b b', rule.pattern.match? t = some b ∧ rule'.pattern.match? t' = some b' ∧
        b.same b' = true) ∧
      (∃ r r', rule.reduct t 0 = .ok r ∧ rule'.reduct t' 0 = .ok r' ∧
        (r.term == r'.term) = true ∧ r.paths = r'.paths) ∧
      ∃ u, readTerm t.renderInfix = .ok u ∧
        SameOutcome Workspace.EndsAlike
          ((Workspace.mk ∅ (.begin t)).perform (.step (.inline rule) 0))
          ((Workspace.mk ∅ (.begin u)).perform (.step (.inline rule) 0)) := by
  intro zero negativeZero integral rounded t t' rule rule'
  have ht : (t == t') = true := by decide +kernel
  have hp : (rule.pattern == rule'.pattern) = true := by decide +kernel
  have hq : (rule.replacement == rule'.replacement) = true := by decide +kernel
  have hprintable : t.isPrintable = true := by decide +kernel
  obtain ⟨hwritten, hmatches, hrewritten, hread⟩ := alike_of_same
  refine ⟨ht, hp, hq, hprintable, (hwritten t t' ht).2, ?_, ?_, ?_⟩
  · rcases hmatches _ _ t t' hp ht with ⟨hnone, -⟩ | ⟨b, b', hb, hb', -, hsame⟩
    · have hsome : (rule.pattern.match? t).isSome = true := by decide +kernel
      rw [hnone] at hsome
      cases hsome
    · exact ⟨b, b', hb, hb', hsame⟩
  · have hmake : Rule.make? rule.pattern rule.replacement none = .ok rule := dif_pos rule.closed
    have hmake' : Rule.make? rule'.pattern rule'.replacement none = .ok rule' :=
      dif_pos rule'.closed
    rcases hrewritten _ _ _ _ hp hq none none with ⟨e, -, he, -⟩ | ⟨_, _, h, h', hreduct⟩
    · cases hmake.symm.trans he
    · cases hmake.symm.trans h
      cases hmake'.symm.trans h'
      rcases hreduct t t' ht 0 with hok | ⟨d, hfail, -⟩ | ⟨hneg, -⟩
      · exact hok
      · have hfound : (t.matchesAt rule.pattern 0).isEmpty = false := by decide +kernel
        rw [show (0 : Int) = (0 : Nat) from rfl, Rule.reduct_natCast, Rule.reduct?, hfound] at hfail
        cases hfail
      · exact absurd hneg (by decide)
  · obtain ⟨u, -, hinfix, -, houtcome⟩ := hread t hprintable
    exact ⟨u, hinfix, houtcome ∅ [] (.step (.inline rule) 0)⟩

end Stepwise
